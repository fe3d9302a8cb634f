/-!
# File paths

A path is kept as its pieces between slashes, so its spelling can be given back; what it means is in
its `parts`, which know nothing of repeated slashes, of dots after the first piece and of a slash at
the end. Paths are compared by their parts.
-/
namespace TypedSvelte

/-- A path, as its pieces between slashes. -/
structure FilePath where
  pieces : List String
  deriving DecidableEq, Repr, Inhabited

namespace FilePath

inductive Part where
  /-- The slash that begins an absolute path. -/
  | root
  /-- A dot that begins a path. -/
  | here
  /-- Two dots. -/
  | up
  | name (text : String)
  deriving DecidableEq, Repr, Inhabited

def ofText (text : String) : FilePath := ⟨(text.toList.splitOn '/').map String.ofList⟩

def text (path : FilePath) : String := "/".intercalate path.pieces

/-- The piece adds nothing to the path unless it begins it. -/
def isIdle (piece : String) : Bool := piece == "" || piece == "."

def laterPart? (piece : String) : Option Part :=
  if isIdle piece then none else if piece == ".." then some .up else some (.name piece)

/-- The parts that the first piece stands for; `more` tells whether a slash follows it. -/
def firstPart? (piece : String) (more : Bool) : Option Part :=
  if piece == "" then if more then some .root else none
  else if piece == "." then some .here
  else laterPart? piece

def parts (path : FilePath) : List Part :=
  match path.pieces with
  | [] => []
  | first :: later => (firstPart? first (!later.isEmpty)).toList ++ later.filterMap laterPart?

def isAbsolute (path : FilePath) : Bool := path.parts.head? == some .root

/-- The last part, if it is a name. -/
def fileName? (path : FilePath) : Option String :=
  match path.parts.getLast? with
  | some (.name text) => some text
  | _ => none

/-- The name without its extension, and the extension. A dot that begins a name begins no
extension. -/
def splitName (name : String) : String × Option String :=
  let chars := name.toList
  let extension := (chars.reverse.takeWhile (· != '.')).reverse
  let stem := chars.take (chars.length - extension.length - 1)
  if extension.length == chars.length || stem.isEmpty then (name, none)
  else (String.ofList stem, some (String.ofList extension))

def extension? (path : FilePath) : Option String :=
  path.fileName?.bind fun name => (splitName name).2

/-- The pieces up to the last one that is no idle one. -/
def trimmedPieces (path : FilePath) : List String :=
  match path.pieces with
  | [] => []
  | first :: later => first :: (later.reverse.dropWhile isIdle).reverse

/-- A slash, or a slash and a dot, ends the path, so it can only be that of a directory. -/
def wantsDirectory (path : FilePath) : Bool := path.pieces.getLast?.any isIdle

def withoutExtension (path : FilePath) : FilePath :=
  match path.fileName? with
  | some name => ⟨path.trimmedPieces.dropLast ++ [(splitName name).1]⟩
  | none => path

def directoryParts (path : FilePath) : List Part := path.parts.dropLast

def endsWith (path suffix : FilePath) : Bool := suffix.parts.isSuffixOf path.parts

/-- The directory that holds the file ends with all parts of another path. -/
def directoryEndsWith (path suffix : FilePath) : Bool :=
  suffix.parts.isSuffixOf path.directoryParts

/-- A path taken from another one on. An absolute path stands for itself. -/
def join (base path : FilePath) : FilePath :=
  if path.isAbsolute then path
  else if base.pieces.getLast? == some "" then ⟨base.pieces.dropLast ++ path.pieces⟩
  else ⟨base.pieces ++ path.pieces⟩

def extendedBy (path : FilePath) (suffix : String) : FilePath :=
  ⟨path.pieces.dropLast ++ [path.pieces.getLast?.getD "" ++ suffix]⟩

/-- The pieces that are left when the parts have been matched from the front. `first` tells whether
the first piece of the path is still there. -/
def dropParts (first : Bool) : List String → List Part → Option (List String)
  | pieces, [] => some pieces
  | [], _ :: _ => none
  | piece :: later, part :: parts =>
    match if first then firstPart? piece (!later.isEmpty) else laterPart? piece with
    | none => dropParts false later (part :: parts)
    | some found => if found = part then dropParts false later parts else none

def relativeTo? (path base : FilePath) : Option FilePath :=
  match base.parts with
  | [] => some path
  | parts =>
    (dropParts true path.pieces parts).map fun rest =>
      ⟨((rest.dropWhile isIdle).reverse.dropWhile isIdle).reverse⟩

/-- The path as seen from a directory, or as it is where that does not hold it. -/
def relativeTo (path base : FilePath) : FilePath := (path.relativeTo? base).getD path

def Part.rank : Part → Nat
  | .root => 0
  | .here => 1
  | .up => 2
  | .name _ => 3

/-- The order of parts: by kind, and names by their bytes. -/
def Part.compare (a b : Part) : Ordering :=
  match a, b with
  | .name x, .name y => Ord.compare (x.toList.map Char.toNat) (y.toList.map Char.toNat)
  | a, b => Ord.compare a.rank b.rank

/-- The order of lists of parts. A beginning comes before what goes on from it. -/
def compareParts : List Part → List Part → Ordering
  | [], [] => .eq
  | [], _ :: _ => .lt
  | _ :: _, [] => .gt
  | a :: as, b :: bs => (a.compare b).then (compareParts as bs)

def compare (a b : FilePath) : Ordering := compareParts a.parts b.parts

end FilePath

end TypedSvelte
