/-!
# Byte spans

A span is a half-open range of byte offsets into a text. A span need not fit the text it is read
against: `slice?` says exactly when there is something to read, and `Span.text` reads nothing
otherwise.
-/
namespace TypedSvelte

/-- The bytes of `source` from `start` up to `stop`, provided that both offsets lie on character
boundaries of `source` and are in order. -/
def slice? (source : String) (start stop : Nat) : Option String :=
  match source.pos? ⟨start⟩, source.pos? ⟨stop⟩ with
  | some first, some last => if first ≤ last then some (source.extract first last) else none
  | _, _ => none

structure Span where
  start : Nat
  stop : Nat
  deriving DecidableEq, Repr, Inhabited

namespace Span

/-- The span that covers nothing, at `offset`. -/
def empty (offset : Nat) : Span := ⟨offset, offset⟩

def size (s : Span) : Nat := s.stop - s.start

def isEmpty (s : Span) : Bool := s.start == s.stop

/-- The offset lies in the span; the end is not part of it. -/
def contains (s : Span) (offset : Nat) : Bool := s.start ≤ offset && offset < s.stop

/-- The text covered in `source`, empty when the span does not fit `source`. -/
def text (s : Span) (source : String) : String := (slice? source s.start s.stop).getD ""

/-- The span in another place: `f` tells where an offset is to be found. -/
def move (s : Span) (f : Nat → Nat) : Span := ⟨f s.start, f s.stop⟩

/-- The same span counted from `offset` bytes further left. -/
def shift (s : Span) (offset : Nat) : Span := ⟨s.start + offset, s.stop + offset⟩

end Span

end TypedSvelte
