import TypedSvelte.Workspace.FilePath

/-!
# File trees

The files that a run can read and write, as a value. Paths begin at the root. There are no links, so
a path leads to one place or to none: two dots lead out of a directory, and only out of a directory
that is there.
-/
namespace TypedSvelte

/-- A place in a file tree: the names on the way to it from the root. -/
abbrev Location := List String

def Location.follow (place : Location) : FilePath.Part → Location
  | .root => []
  | .here => place
  | .up => place.dropLast
  | .name text => place ++ [text]

/-- The place that a path is the way to, if all directories on the way are there. -/
def Location.ofPath (path : FilePath) : Location := path.parts.foldl Location.follow []

def Location.path (place : Location) : FilePath := ⟨"" :: place⟩

/-- Why a file or a directory cannot be used. -/
inductive FileFault where
  | missing
  /-- The path leads through a file. -/
  | notDirectory
  /-- A file is wanted and the path leads to a directory. -/
  | isDirectory
  /-- A directory is to be made where something is. -/
  | alreadyExists
  deriving DecidableEq, Repr, Inhabited

def FileFault.message : FileFault → String
  | .missing => "No such file or directory (os error 2)"
  | .alreadyExists => "File exists (os error 17)"
  | .notDirectory => "Not a directory (os error 20)"
  | .isDirectory => "Is a directory (os error 21)"

/-- Files with their texts, and directories. A directory that holds something need not be listed. -/
structure Tree where
  files : List (Location × String)
  directories : List Location
  deriving DecidableEq, Repr, Inhabited

namespace Tree

def empty : Tree := ⟨[], []⟩

def file? (tree : Tree) (place : Location) : Option String := List.lookup place tree.files

def isAbove (place other : Location) : Bool := place.isPrefixOf other && place != other

def isDirectory (tree : Tree) (place : Location) : Bool :=
  place.isEmpty
    || tree.directories.any (place.isPrefixOf ·)
    || tree.files.any fun file => isAbove place file.1

def occupied (tree : Tree) (place : Location) : Bool :=
  tree.isDirectory place || (tree.file? place).isSome

/-- The place one part further on. Nothing leads on from a file or from where nothing is. -/
def step (tree : Tree) (place : Location) (part : FilePath.Part) : Except FileFault Location :=
  if tree.isDirectory place then .ok (Location.follow place part)
  else if (tree.file? place).isSome then .error .notDirectory
  else .error .missing

/-- The place that parts lead to. There need not be anything. -/
def locate (tree : Tree) (parts : List FilePath.Part) : Except FileFault Location :=
  parts.foldlM tree.step []

/-- The text of the file that a path leads to. A path with a slash at its end leads to no file. -/
def read (tree : Tree) (path : FilePath) : Except FileFault String := do
  let place ← tree.locate path.parts
  if tree.isDirectory place then throw .isDirectory
  match tree.file? place with
  | some text => if path.wantsDirectory then throw .notDirectory else return text
  | none => throw .missing

def has (tree : Tree) (path : FilePath) : Bool :=
  match tree.locate path.parts with
  | .ok place => tree.isDirectory place || ((tree.file? place).isSome && !path.wantsDirectory)
  | .error _ => false

def putFile (place : Location) (text : String) :
    List (Location × String) → List (Location × String)
  | [] => [(place, text)]
  | (other, old) :: rest =>
    if other = place then (place, text) :: rest else (other, old) :: putFile place text rest

theorem lookup_putFile (place other : Location) (text : String)
    (files : List (Location × String)) :
    List.lookup other (putFile place text files) =
      if other = place then some text else List.lookup other files := by
  induction files with
  | nil => by_cases h : other = place <;> simp [putFile, h]
  | cons file rest ih =>
    obtain ⟨key, old⟩ := file
    by_cases hk : key = place
    · subst hk
      by_cases h : other = key <;> simp [putFile, List.lookup_cons, h, beq_eq_false_iff_ne.2]
    · by_cases h : other = key
      · subst h
        simp [putFile, hk]
      · have hne : (other == key) = false := beq_eq_false_iff_ne.2 h
        simpa [putFile, List.lookup_cons, hk, hne] using ih

def makeDirectory (tree : Tree) (parts : List FilePath.Part) : Except FileFault Tree := do
  let place ← tree.locate parts
  if tree.occupied place then throw .alreadyExists
  return { tree with directories := tree.directories ++ [place] }

def leadsToDirectory (tree : Tree) (parts : List FilePath.Part) : Bool :=
  match tree.locate parts with
  | .ok place => tree.isDirectory place
  | .error _ => false

/-- Makes a directory and all that are missing around it; the parts are given from the last to the
first. The tree also tells what was made before a fault. -/
def makeDirectories (tree : Tree) : List FilePath.Part → Tree × Option FileFault
  | [] => (tree, none)
  | part :: earlier =>
    let parts := (part :: earlier).reverse
    match tree.makeDirectory parts with
    | .ok made => (made, none)
    | .error .missing =>
      match tree.makeDirectories earlier with
      | (grown, some fault) => (grown, some fault)
      | (grown, none) =>
        match grown.makeDirectory parts with
        | .ok made => (made, none)
        | .error fault => (grown, if grown.leadsToDirectory parts then none else some fault)
    | .error fault => (tree, if tree.leadsToDirectory parts then none else some fault)

def writeFile (tree : Tree) (parts : List FilePath.Part) (text : String) :
    Except FileFault Tree := do
  let place ← tree.locate parts
  if tree.isDirectory place then throw .isDirectory
  return { tree with files := putFile place text tree.files }

/-- Writes a file and makes the directories around it. The tree also tells what was made before a
fault. -/
def write (tree : Tree) (path : FilePath) (text : String) : Tree × Option FileFault :=
  match tree.makeDirectories path.directoryParts.reverse with
  | (grown, some fault) => (grown, some fault)
  | (grown, none) =>
    match grown.writeFile path.parts text with
    | .ok written => (written, none)
    | .error fault => (grown, some fault)

/-- What parts lead to is what they spell. -/
theorem eq_follow_of_locate {tree : Tree} {parts : List FilePath.Part} {place : Location}
    (h : tree.locate parts = .ok place) : place = parts.foldl Location.follow [] := by
  have fold : ∀ (parts : List FilePath.Part) (start : Location),
      parts.foldlM tree.step start = .ok place → place = parts.foldl Location.follow start := by
    intro parts
    induction parts with
    | nil =>
      intro start h
      simpa [pure, Except.pure] using h.symm
    | cons part rest ih =>
      intro start h
      rw [List.foldlM_cons] at h
      unfold step at h
      split at h
      · exact ih _ h
      · split at h <;> simp [bind, Except.bind] at h
  exact fold parts [] h

def filesBelow (tree : Tree) (directory : Location) : List Location :=
  tree.files.filterMap fun file =>
    if directory.isPrefixOf file.1 then some (file.1.drop directory.length) else none

/-- The files that an earlier tree does not have or has with another text. -/
def changedSince (tree earlier : Tree) : List (Location × String) :=
  tree.files.filter fun file => earlier.file? file.1 != some file.2

end Tree

end TypedSvelte
