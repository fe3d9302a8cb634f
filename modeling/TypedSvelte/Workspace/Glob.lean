/-!
# Globs

Patterns for paths. A star stands for any bytes, slashes included, a question mark for one byte, and
two stars that fill the room between slashes for any number of directories. There are classes of
bytes and, in braces, alternatives. Reading a pattern can fail, matching is total: a part of a
pattern takes what the parts before it left of the path to all that it can leave itself.
-/
namespace TypedSvelte

inductive GlobPart where
  | literal (c : Char)
  | anyByte
  | anything
  /-- Any directories at the beginning, or none. -/
  | anyFront
  /-- A slash and anything after it. -/
  | anyBelow
  /-- A slash, or any directories between two slashes. -/
  | anyBetween
  /-- One byte of the ranges, or one of none of them. -/
  | oneOf (negated : Bool) (ranges : List (UInt8 × UInt8))
  /-- One of the alternatives, or nothing if there are none. -/
  | choice (alternatives : List (List GlobPart))
  deriving Repr, Inhabited

structure Glob where
  parts : List GlobPart
  deriving Repr, Inhabited

/-- Why a text is no glob. -/
inductive GlobFault where
  /-- A class without its closing bracket. -/
  | unclosedClass
  /-- A range whose end comes before its start. -/
  | invalidRange (first last : Char)
  | unopenedGroup
  | unclosedGroup
  /-- A backslash at the end. -/
  | danglingEscape
  deriving DecidableEq, Repr, Inhabited

def GlobFault.message : GlobFault → String
  | .unclosedClass => "unclosed character class; missing ']'"
  | .invalidRange first last =>
    "invalid range; '" ++ first.toString ++ "' > '" ++ last.toString ++ "'"
  | .unopenedGroup =>
    "unopened alternate group; missing '\x7b' (maybe escape '\x7d' with '[\x7d]'?)"
  | .unclosedGroup =>
    "unclosed alternate group; missing '\x7d' (maybe escape '\x7b' with '[\x7b]'?)"
  | .danglingEscape => "dangling '\\'"

namespace Glob

def bytesOf (text : String) : List UInt8 := text.toList.flatMap String.utf8EncodeChar

def slash : UInt8 := 47

/-- The byte ranges of a range of characters: the bytes of both ends, and those between the last
byte of the one and the first byte of the other. -/
def byteRanges (first last : Char) : List (UInt8 × UInt8) :=
  let single (b : UInt8) := (b, b)
  if first = last then (String.utf8EncodeChar first).map single
  else
    let low := String.utf8EncodeChar first
    let high := String.utf8EncodeChar last
    low.dropLast.map single ++ [(low.getLast?.getD 0, high.headD 0)] ++ high.tail.map single

/-- Reads a class after its opening bracket and sign. The ranges read so far are given from the last
to the first; `isFirst` tells whether nothing of the class has been read yet, `inRange` whether a
dash asks for the end of the last range. -/
def classRanges (isFirst inRange : Bool) (ranges : List (Char × Char)) :
    List Char → Except GlobFault (List (Char × Char) × List Char)
  | [] => .error .unclosedClass
  | c :: rest =>
    if c = ']' && !isFirst then
      .ok ((if inRange then ('-', '-') :: ranges else ranges).reverse, rest)
    else if c = '-' && !isFirst && !inRange then classRanges false true ranges rest
    else
      match inRange, ranges with
      | true, (low, _) :: others =>
        if c < low then .error (.invalidRange low c)
        else classRanges false false ((low, c) :: others) rest
      | _, _ => classRanges false false ((c, c) :: ranges) rest

theorem length_classRanges_lt {isFirst inRange : Bool} {ranges found : List (Char × Char)}
    {text rest : List Char} (h : classRanges isFirst inRange ranges text = .ok (found, rest)) :
    rest.length < text.length := by
  induction text generalizing isFirst inRange ranges with
  | nil => simp [classRanges] at h
  | cons c text ih =>
    unfold classRanges at h
    split at h
    · simp only [Except.ok.injEq, Prod.mk.injEq] at h
      simp [← h.2]
    · split at h
      · exact Nat.lt_succ_of_lt (ih h)
      · split at h
        · split at h
          · simp at h
          · exact Nat.lt_succ_of_lt (ih h)
        · exact Nat.lt_succ_of_lt (ih h)

def classPart (text : List Char) : Except GlobFault (GlobPart × List Char) :=
  let negated := text.head? == some '!' || text.head? == some '^'
  match classRanges true false [] (if negated then text.tail else text) with
  | .error fault => .error fault
  | .ok (ranges, rest) =>
    .ok (.oneOf negated (ranges.flatMap fun (first, last) => byteRanges first last), rest)

theorem length_classPart_lt {text rest : List Char} {part : GlobPart}
    (h : classPart text = .ok (part, rest)) : rest.length < text.length := by
  unfold classPart at h
  dsimp only at h
  split at h
  · simp at h
  · rename_i hr
    have hlt := length_classRanges_lt hr
    simp only [Except.ok.injEq, Prod.mk.injEq] at h
    rw [← h.2]
    split at hlt
    · exact Nat.lt_of_lt_of_le hlt (by simp)
    · exact hlt

/-- What has been read of a pattern: the parts of the alternative at hand, from the last to the
first, and for each group around it, from the innermost out, its finished alternatives and the parts
before it, again from the last to the first. -/
structure Progress where
  current : List GlobPart
  groups : List (List (List GlobPart) × List GlobPart)
  deriving Inhabited

namespace Progress

def add (progress : Progress) (part : GlobPart) : Progress :=
  { progress with current := part :: progress.current }

def addPlainStars (progress : Progress) : Progress := (progress.add .anything).add .anything

def openGroup (progress : Progress) : Progress :=
  ⟨[], ([], progress.current) :: progress.groups⟩

/-- Begins another alternative; outside groups a comma stands for itself. -/
def comma (progress : Progress) : Progress :=
  match progress.groups with
  | [] => progress.add (.literal ',')
  | (alternatives, before) :: outer =>
    ⟨[], (alternatives ++ [progress.current.reverse], before) :: outer⟩

/-- The part can only stand for nothing. -/
def isVoid : GlobPart → Bool
  | .choice [] => true
  | _ => false

/-- Ends a group. Alternatives that can only stand for nothing do not count. -/
def closeGroup (progress : Progress) : Except GlobFault Progress :=
  match progress.groups with
  | [] => .error .unopenedGroup
  | (alternatives, before) :: outer =>
    let all := alternatives ++ [progress.current.reverse]
    .ok ⟨.choice (all.filter fun alternative => !alternative.all isVoid) :: before, outer⟩

/-- Puts directories in the place of the slash before them. Directories that follow directories add
nothing to them. -/
def absorbSlash (progress : Progress) (part : GlobPart) : Progress :=
  match progress.current with
  | .anyFront :: _ | .anyBelow :: _ => progress
  | _ :: earlier => { progress with current := part :: earlier }
  | [] => progress.add part

/-- Reads two stars, of which `previous` stands before and `rest` after; the flag tells whether the
slash after them belongs to them. They stand for directories only where they fill the room between
slashes, the ends of the pattern and, after a slash, the end of an alternative. -/
def stars (progress : Progress) (previous : Option Char) (rest : List Char) : Progress × Bool :=
  let inGroup := !progress.groups.isEmpty
  if progress.current.isEmpty then
    match rest.head? with
    | none => (progress.add .anyFront, false)
    | some '/' => (progress.add .anyFront, true)
    | some _ => (progress.addPlainStars, false)
  else if previous != some '/' && !(inGroup && (previous == some ',' || previous == some '{')) then
    (progress.addPlainStars, false)
  else
    match rest.head? with
    | none => (progress.absorbSlash .anyBelow, false)
    | some '/' => (progress.absorbSlash .anyBetween, true)
    | some c =>
      if inGroup && (c == ',' || c == '}') then (progress.absorbSlash .anyBelow, false)
      else (progress.addPlainStars, false)

end Progress

/-- Reads the rest of a pattern after `previous`. -/
def readParts (previous : Option Char) (progress : Progress) :
    List Char → Except GlobFault (List GlobPart)
  | [] => if progress.groups.isEmpty then .ok progress.current.reverse else .error .unclosedGroup
  | '?' :: rest => readParts (some '?') (progress.add .anyByte) rest
  | '*' :: '*' :: rest =>
    let (next, takesSlash) := progress.stars previous rest
    if takesSlash then readParts (some '/') next rest.tail else readParts (some '*') next rest
  | '*' :: rest => readParts (some '*') (progress.add .anything) rest
  | '[' :: rest =>
    match _ : classPart rest with
    | .error fault => .error fault
    | .ok (part, later) => readParts (some ']') (progress.add part) later
  | '{' :: rest => readParts (some '{') progress.openGroup rest
  | '}' :: rest =>
    match progress.closeGroup with
    | .error fault => .error fault
    | .ok next => readParts (some '}') next rest
  | ',' :: rest => readParts (some ',') progress.comma rest
  | ['\\'] => .error .danglingEscape
  | '\\' :: c :: rest => readParts (some c) (progress.add (.literal c)) rest
  | c :: rest => readParts (some c) (progress.add (.literal c)) rest
termination_by text => text.length
decreasing_by
  all_goals simp only [List.length_cons, List.length_tail]
  all_goals first
    | omega
    | exact Nat.lt_succ_of_lt (length_classPart_lt ‹_›)

def ofText (text : String) : Except GlobFault Glob :=
  (readParts none ⟨[], []⟩ text.toList).map Glob.mk

def suffixes : List UInt8 → List (List UInt8)
  | [] => [[]]
  | b :: rest => (b :: rest) :: suffixes rest

def afterSlashes : List UInt8 → List (List UInt8)
  | [] => []
  | b :: rest => if b = slash then rest :: afterSlashes rest else afterSlashes rest

def inRanges (ranges : List (UInt8 × UInt8)) (b : UInt8) : Bool :=
  ranges.any fun (low, high) => low ≤ b && b ≤ high

mutual

def leftBy : GlobPart → List UInt8 → List (List UInt8)
  | .literal c, text =>
    let bytes := String.utf8EncodeChar c
    if bytes.isPrefixOf text then [text.drop bytes.length] else []
  | .anyByte, text => text.tail?.toList
  | .anything, text => suffixes text
  | .anyFront, text => text :: afterSlashes text
  | .anyBelow, text => if text.head? = some slash then suffixes text.tail else []
  | .anyBetween, text =>
    if text.head? = some slash then text.tail :: afterSlashes text.tail else []
  | .oneOf negated ranges, text =>
    match text with
    | [] => []
    | b :: rest => if inRanges ranges b != negated then [rest] else []
  | .choice [], text => [text]
  | .choice (first :: others), text => leftByParts first [text] ++ leftByAny others text

def leftByAny : List (List GlobPart) → List UInt8 → List (List UInt8)
  | [], _ => []
  | alternative :: others, text => leftByParts alternative [text] ++ leftByAny others text

def leftByParts : List GlobPart → List (List UInt8) → List (List UInt8)
  | [], texts => texts
  | part :: rest, texts => leftByParts rest (texts.flatMap (leftBy part)).eraseDups

end

/-- The glob stands for the whole path. Nothing but two stars stands for every path. -/
def accepts (glob : Glob) (path : String) : Bool :=
  match glob.parts with
  | [.anyFront] => true
  | parts => (leftByParts parts [bytesOf path]).any List.isEmpty

end Glob

end TypedSvelte
