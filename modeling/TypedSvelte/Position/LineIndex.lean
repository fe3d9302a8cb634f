/-!
# Lines and columns

Offsets of a text as a line and a byte column, both counted from zero. A line ends with its newline
byte; the last line may be empty.
-/
namespace TypedSvelte

/-- A line and a byte column in it, both from zero. -/
structure LineColumn where
  line : Nat
  column : Nat
  deriving DecidableEq, Repr, Inhabited

/-- The start offsets of all lines of a text, and its length. -/
structure LineIndex where
  starts : List Nat
  length : Nat
  deriving DecidableEq, Repr, Inhabited

namespace LineIndex

/-- The offsets after each newline of a text that begins at `offset`. -/
def startsAfter (offset : Nat) : List Char → List Nat
  | [] => []
  | c :: rest =>
    let next := offset + c.utf8Size
    if c = '\n' then next :: startsAfter next rest else startsAfter next rest

def ofText (text : String) : LineIndex := ⟨0 :: startsAfter 0 text.toList, text.utf8ByteSize⟩

def lineCount (index : LineIndex) : Nat := index.starts.length

/-- Line and column of an offset, unless it lies past the end. -/
def position? (index : LineIndex) (offset : Nat) : Option LineColumn :=
  if index.length < offset then none
  else
    let upTo := index.starts.takeWhile (· ≤ offset)
    some ⟨upTo.length - 1, offset - upTo.getLast?.getD 0⟩

/-- The offset `column` bytes after the start of a line, if the text has the line and does not end
before. The column may run past the end of its line. -/
def offset? (index : LineIndex) (position : LineColumn) : Option Nat := do
  let start ← index.starts[position.line]?
  let offset := start + position.column
  if offset ≤ index.length then some offset else none

end LineIndex

end TypedSvelte
