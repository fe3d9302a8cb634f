import TypedSvelte.Position.Span
import TypedSvelte.Position.Translation

/-!
# Insertion ledgers

A ledger lists texts to be inserted into a source, each before one offset of it. Since the
generated text is the source with these insertions, offsets are translated in both directions by
prefix sums. Only offset and text of an entry are kept, in order of offset; the totals are computed
in one pass by `insertions`.
-/
namespace TypedSvelte

/-- A text to be inserted before an offset of the source. -/
structure Ledger.Entry where
  position : Nat
  text : String
  deriving DecidableEq, Repr, Inhabited

/-- An entry together with its place in the generated text. -/
structure Insertion where
  /-- Offset in the source that the text is placed before. -/
  position : Nat
  /-- Offset of the text in the generated output. -/
  generated : Nat
  /-- Byte length of the text. -/
  length : Nat
  text : String
  /-- Sum of `length` over this insertion and all earlier ones. -/
  total : Nat
  deriving DecidableEq, Repr, Inhabited

/-- Insertions in increasing order of position, at most one for each position. -/
structure Ledger where
  entries : List Ledger.Entry
  deriving DecidableEq, Repr, Inhabited

inductive LedgerError where
  /-- The position already has an insertion. -/
  | duplicatePosition (offset : Nat)
  deriving DecidableEq, Repr

def LedgerError.message : LedgerError → String
  | .duplicatePosition offset =>
    "an insertion is already recorded at offset " ++ toString offset

namespace Ledger

def empty : Ledger := ⟨[]⟩

/-- Puts an entry into its place by position; an occupied position is refused. -/
def place (position : Nat) (text : String) : List Entry → Except LedgerError (List Entry)
  | [] => .ok [⟨position, text⟩]
  | entry :: rest =>
    if position < entry.position then .ok (⟨position, text⟩ :: entry :: rest)
    else if position = entry.position then .error (.duplicatePosition position)
    else (place position text rest).map (entry :: ·)

/-- Records `text` before `position`. Empty text is not recorded and never refused. -/
def insert (ledger : Ledger) (position : Nat) (text : String) : Except LedgerError Ledger :=
  if text.isEmpty then .ok ledger else (place position text ledger.entries).map Ledger.mk

/-- Entries with their places, `total` bytes having been inserted before them. -/
def placed (total : Nat) : List Entry → List Insertion
  | [] => []
  | entry :: rest =>
    let length := entry.text.utf8ByteSize
    ⟨entry.position, entry.position + total, length, entry.text, total + length⟩
      :: placed (total + length) rest

def insertions (ledger : Ledger) : List Insertion := placed 0 ledger.entries

def size (ledger : Ledger) : Nat := ledger.entries.length

def isEmpty (ledger : Ledger) : Bool := ledger.entries.isEmpty

/-- The generated offset of the source byte at `offset`. An insertion exactly there precedes it. -/
def toGenerated (ledger : Ledger) (offset : Nat) : Nat :=
  match (ledger.insertions.takeWhile (·.position ≤ offset)).getLast? with
  | some last => offset + last.total
  | none => offset

/-- Where the generated byte at `offset` comes from. Inserted text is anchored at its position. -/
def toOriginal (ledger : Ledger) (offset : Nat) : OriginalPosition :=
  match (ledger.insertions.takeWhile (·.generated ≤ offset)).getLast? with
  | some last =>
    if offset < last.generated + last.length then .anchored last.position
    else .exactly (offset - last.total)
  | none => .exactly offset

/-- The source from byte `cursor` on with the entries inserted. A position past the end counts as
the end; there is no answer when a position cuts a character. -/
def weave (source : String) (cursor : Nat) : List Entry → Option String
  | [] => slice? source cursor source.utf8ByteSize
  | entry :: rest => do
    let position := min entry.position source.utf8ByteSize
    let before ← slice? source cursor position
    let after ← weave source position rest
    return before ++ entry.text ++ after

/-- The generated text: `source` with all insertions. -/
def assemble? (ledger : Ledger) (source : String) : Option String :=
  weave source 0 ledger.entries

end Ledger

end TypedSvelte
