/-!
# Answers of a position translation

An offset of a generated text answers with an offset of the text it was made from, and with
whether it lies in text that has no counterpart there.
-/
namespace TypedSvelte

structure OriginalPosition where
  /-- The original offset, or the nearest anchor when the text is synthetic. -/
  offset : Nat
  /-- The generated offset lies in text without a counterpart. -/
  synthetic : Bool
  deriving DecidableEq, Repr, Inhabited

namespace OriginalPosition

def exactly (offset : Nat) : OriginalPosition := ⟨offset, false⟩

/-- A generated offset in synthetic text, anchored at `offset`. -/
def anchored (offset : Nat) : OriginalPosition := ⟨offset, true⟩

end OriginalPosition

end TypedSvelte
