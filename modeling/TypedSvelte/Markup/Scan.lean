import TypedSvelte.Markup.Document
import TypedSvelte.Markup.Error
import TypedSvelte.Markup.Token

/-!
# Scanning markup

A `Scan` is a place in the source together with the errors noticed so far. All readers move it by
whole characters and only forwards, which `Scan.skip` makes plain: the text that is left is always a
part of what was left before.
-/
namespace TypedSvelte.Markup

/-- A place in the source: its byte offset, the text from there on, and the errors noticed before,
last first. -/
structure Scan where
  pos : Nat
  rest : List Char
  errors : List MarkupError
  deriving Repr, Inhabited

namespace Scan

def ofSource (source : String) : Scan := ⟨0, source.toList, []⟩

def atEnd (s : Scan) : Bool := s.rest.isEmpty

/-- What is left begins with `literal`. -/
def startsWith (s : Scan) (literal : String) : Bool := literal.toList.isPrefixOf s.rest

/-- Moves on by `n` characters. -/
def skip (s : Scan) (n : Nat) : Scan :=
  { s with pos := s.pos + byteSize (s.rest.take n), rest := s.rest.drop n }

def skipAll (s : Scan) : Scan := s.skip s.rest.length

/-- The number of characters ahead that satisfy `p` without a break. -/
def count (s : Scan) (p : Char → Bool) : Nat := (s.rest.takeWhile p).length

def skipBlank (s : Scan) : Scan := s.skip (s.count isBlank)

/-- Moves past the next `c`, or to the end if there is none. -/
def skipPast (s : Scan) (c : Char) : Scan :=
  match s.rest.findIdx? (· == c) with
  | some n => s.skip (n + 1)
  | none => s.skipAll

/-- Notes an error that began at byte `start` and reaches to this place. -/
def fail (s : Scan) (kind : ErrorKind) (start : Nat) : Scan :=
  { s with errors := ⟨kind, ⟨start, max s.pos start⟩⟩ :: s.errors }

def word (s : Scan) : String × Scan :=
  let n := s.count isIdentChar
  (String.ofList (s.rest.take n), s.skip n)

/-- The next `n` characters as raw text. -/
def rawText (s : Scan) (n : Nat) : RawText :=
  ⟨⟨s.pos, (s.skip n).pos⟩, String.ofList (s.rest.take n)⟩

/-- What is left begins with `before` followed by the whole word `word`. -/
def atWord (s : Scan) (before word : String) : Bool :=
  s.startsWith (before ++ word)
    && !((s.rest.drop (before.length + word.length)).head?.any isIdentChar)

def atCloser (s : Scan) : Bool :=
  match s.rest with
  | '<' :: '/' :: _ => true
  | '{' :: '/' :: _ => true
  | '{' :: ':' :: _ => true
  | _ => false

def atTag (s : Scan) : Bool :=
  match s.rest with
  | '<' :: c :: _ => c.isAlpha
  | _ => false

/-- The expression ahead, whose opening brace at byte `opening` has been passed, and the place after
its closing brace. Without a closing brace all text is passed. -/
def expression (s : Scan) (opening : Nat) : Option Expression × Scan :=
  match closingBrace? s.rest with
  | some n => (some (Expression.ofText s.pos (s.rest.take n)), s.skip (n + 1))
  | none => (none, s.skipAll.fail (.unexpectedEof "\x7d") opening)

@[simp]
theorem rest_skip (s : Scan) (n : Nat) : (s.skip n).rest = s.rest.drop n := rfl

@[simp]
theorem rest_fail (s : Scan) (kind : ErrorKind) (start : Nat) :
    (s.fail kind start).rest = s.rest := rfl

theorem length_skip_le (s : Scan) (n : Nat) : (s.skip n).rest.length ≤ s.rest.length := by
  simp

theorem length_skipBlank_le (s : Scan) : s.skipBlank.rest.length ≤ s.rest.length :=
  length_skip_le _ _

theorem length_skipPast_le (s : Scan) (c : Char) :
    (s.skipPast c).rest.length ≤ s.rest.length := by
  unfold skipPast
  split
  · exact length_skip_le _ _
  · exact length_skip_le _ _

theorem length_word_le (s : Scan) : s.word.2.rest.length ≤ s.rest.length :=
  length_skip_le _ _

theorem length_expression_le (s : Scan) (opening : Nat) :
    (s.expression opening).2.rest.length ≤ s.rest.length := by
  unfold expression
  split
  · exact length_skip_le _ _
  · simp [skipAll]

theorem skip_lt (s : Scan) (n : Nat) (hn : 0 < n) (hs : s.rest ≠ []) :
    (s.skip n).rest.length < s.rest.length := by
  have := List.length_pos_iff.2 hs
  simp
  omega

end Scan

end TypedSvelte.Markup
