import Mathlib.Order.MinMax
import TypedSvelte.Proofs.Position.LedgerText
import TypedSvelte.Proofs.Position.Spans

/-!
# Splicing texts

A text is edited by putting another text in the place of a span. Offsets up to where the edit begins
stay, and those behind it are displaced by one distance (`relocates_displace`). So a span that the
edit spares covers the same text afterwards, at its displaced place (`text_displaced`).
-/
namespace TypedSvelte

/-- The offsets from `start` on are moved by one distance, and no two offsets change their order. -/
structure Relocates (move : Nat → Nat) (start : Nat) : Prop where
  zero : move 0 = 0
  mono : Monotone move
  carries : ∀ n, move (start + n) = move start + n

theorem relocates_id (start : Nat) : Relocates id start := ⟨rfl, monotone_id, fun _ => rfl⟩

theorem Relocates.add {move : Nat → Nat} {start : Nat} (relocates : Relocates move start) (n : Nat) :
    Relocates move (start + n) where
  zero := relocates.zero
  mono := relocates.mono
  carries m := by
    rw [Nat.add_assoc, relocates.carries, relocates.carries, Nat.add_assoc]

def Span.moved (move : Nat → Nat) (s : Span) : Span := ⟨move s.start, move s.stop⟩

section

variable {first second : String} {i j : Nat}

theorem slice?_append_left (start : i ≤ first.utf8ByteSize) (stop : j ≤ first.utf8ByteSize) :
    slice? (first ++ second) i j = slice? first i j := by
  have widen {text : String} (slice : slice? first i j = some text) :
      slice? (first ++ second) i j = some text := by
    obtain ⟨before, after, rfl, size, sum⟩ := (slice?_eq_some_iff _ _ _ _).1 slice
    exact (slice?_eq_some_iff _ _ _ _).2
      ⟨before, after ++ second, by simp only [String.append_assoc], size, sum⟩
  apply Option.ext
  intro text
  refine ⟨fun slice => ?_, widen⟩
  obtain ⟨startCut, stopCut⟩ := cuts_of_slice? slice
  have ordered : i ≤ j := stop_of_slice? slice ▸ Nat.le_add_right _ _
  obtain ⟨other, inFirst⟩ := exists_slice? (isValid_left_of_append startCut start)
    (isValid_left_of_append stopCut stop) ordered
  rw [inFirst, ← widen inFirst, slice]

/-- Where the second part is cut. -/
theorem isCut_of_append (cut : IsCut (first ++ second) (first.utf8ByteSize + i)) :
    IsCut second i := by
  obtain ⟨before, after, split, reached⟩ := split_at_cut cut (Nat.le_add_right _ _)
  exact isCut_iff.2 ⟨before, after, split, by omega⟩

theorem slice?_append_right :
    slice? (first ++ second) (first.utf8ByteSize + i) (first.utf8ByteSize + j) =
      slice? second i j := by
  have widen {text : String} (slice : slice? second i j = some text) :
      slice? (first ++ second) (first.utf8ByteSize + i) (first.utf8ByteSize + j) = some text := by
    obtain ⟨before, after, rfl, rfl, rfl⟩ := (slice?_eq_some_iff _ _ _ _).1 slice
    refine (slice?_eq_some_iff _ _ _ _).2 ⟨first ++ before, after, ?_, ?_, Nat.add_assoc _ _ _⟩
    · simp only [String.append_assoc]
    · exact String.utf8ByteSize_append
  apply Option.ext
  intro text
  refine ⟨fun slice => ?_, widen⟩
  obtain ⟨startCut, stopCut⟩ := cuts_of_slice? slice
  have size := stop_of_slice? slice
  obtain ⟨other, inSecond⟩ :=
    exists_slice? (isCut_of_append startCut) (isCut_of_append stopCut) (by omega)
  rw [inSecond, ← widen inSecond, slice]

end

/-- The text with `new` in place of the bytes of a span. -/
def splice (source : String) (edit : Span) (new : String) : String :=
  (Span.mk 0 edit.start).text source ++ new ++
    (Span.mk edit.stop source.utf8ByteSize).text source

namespace Span

/-- Where an offset is after an edit that puts `size` bytes in the place of a span. -/
def displace (edit : Span) (size offset : Nat) : Nat :=
  if offset ≤ edit.start then offset else edit.start + size + (offset - edit.stop)

/-- The span lies up to where the edit begins, or behind the edit. -/
def Spares (edit s : Span) : Prop :=
  s.start ≤ edit.start ∧ s.stop ≤ edit.start ∨
    max (edit.start + 1) edit.stop ≤ s.start ∧ max (edit.start + 1) edit.stop ≤ s.stop

variable {edit s inner : Span} {size start : Nat}

theorem displace_of_le {offset : Nat} (before : offset ≤ edit.start) :
    edit.displace size offset = offset := if_pos before

theorem displace_of_gt {offset : Nat} (behind : edit.start < offset) :
    edit.displace size offset = edit.start + size + (offset - edit.stop) :=
  if_neg (Nat.not_le_of_gt behind)

/-- The offsets behind an edit are displaced by one distance. -/
theorem relocates_displace (behind : max (edit.start + 1) edit.stop ≤ start) :
    Relocates (edit.displace size) start where
  zero := displace_of_le (Nat.zero_le _)
  mono i j ordered := by
    unfold displace
    split <;> split <;> omega
  carries n := by
    rw [displace_of_gt (by omega), displace_of_gt (by omega)]
    omega

/-- The span between two offsets of a span that is spared is spared too. -/
theorem Spares.between (spares : edit.Spares s) (start : s.start ≤ inner.start ∧ inner.start ≤ s.stop)
    (stop : s.start ≤ inner.stop ∧ inner.stop ≤ s.stop) : edit.Spares inner := by
  rcases spares with ⟨_, before⟩ | ⟨behind, _⟩
  · exact .inl ⟨by omega, by omega⟩
  · exact .inr ⟨by omega, by omega⟩

theorem Spares.inside (spares : edit.Spares s) (ordered : inner.start ≤ inner.stop)
    (inside : inner.Inside s) : edit.Spares inner :=
  spares.between ⟨inside.1, Nat.le_trans ordered inside.2⟩
    ⟨Nat.le_trans inside.1 ordered, inside.2⟩

/-- Two offsets of a span that is spared are displaced by the same distance. -/
theorem Spares.carries (spares : edit.Spares s) {n : Nat} (inside : s.start + n ≤ s.stop) :
    edit.displace size (s.start + n) = edit.displace size s.start + n := by
  rcases spares with ⟨_, before⟩ | ⟨behind, _⟩
  · rw [displace_of_le (by omega), displace_of_le (by omega)]
  · exact (relocates_displace behind).carries n

end Span

section

variable {before old after new : String}

theorem splice_parts (before old after new : String) :
    splice (before ++ old ++ after)
      ⟨before.utf8ByteSize, before.utf8ByteSize + old.utf8ByteSize⟩ new =
        before ++ new ++ after := by
  have first : slice? (before ++ old ++ after) 0 before.utf8ByteSize = some before :=
    (slice?_eq_some_iff _ _ _ _).2
      ⟨"", old ++ after, by simp [String.append_assoc], rfl, Nat.zero_add _⟩
  have last : slice? (before ++ old ++ after) (before.utf8ByteSize + old.utf8ByteSize)
      (before ++ old ++ after).utf8ByteSize = some after :=
    (slice?_eq_some_iff _ _ _ _).2
      ⟨before ++ old, "", by simp, String.utf8ByteSize_append, by simp⟩
  unfold splice Span.text
  rw [first, last]
  rfl

/-- The three parts of a text that an edit tells apart. -/
theorem exists_parts {source : String} {edit : Span} (fits : IsCut source edit.start)
    (ends : IsCut source edit.stop) (ordered : edit.start ≤ edit.stop) :
    ∃ before old after, source = before ++ old ++ after ∧
      edit = ⟨before.utf8ByteSize, before.utf8ByteSize + old.utf8ByteSize⟩ := by
  obtain ⟨old, slice⟩ := exists_slice? fits ends ordered
  obtain ⟨before, after, whole, size, sum⟩ := (slice?_eq_some_iff _ _ _ _).1 slice
  refine ⟨before, old, after, whole, ?_⟩
  rw [size, sum]

/-- A span that is spared covers the same text at its displaced place. -/
theorem text_displaced {source : String} {edit s : Span} (fits : IsCut source edit.start)
    (ends : IsCut source edit.stop) (ordered : edit.start ≤ edit.stop) (spares : edit.Spares s)
    (new : String) :
    (s.moved (edit.displace new.utf8ByteSize)).text (splice source edit new) = s.text source := by
  obtain ⟨before, old, after, rfl, rfl⟩ := exists_parts fits ends ordered
  rw [splice_parts]
  unfold Span.text Span.moved
  dsimp only [Span.Spares] at spares
  congr 1
  rcases spares with ⟨start, stop⟩ | ⟨start, stop⟩
  · rw [Span.displace_of_le start, Span.displace_of_le stop, String.append_assoc,
      String.append_assoc, slice?_append_left start stop, slice?_append_left start stop]
  · obtain ⟨i, startAt⟩ := Nat.exists_eq_add_of_le (Nat.le_trans (Nat.le_max_right _ _) start)
    obtain ⟨j, stopAt⟩ := Nat.exists_eq_add_of_le (Nat.le_trans (Nat.le_max_right _ _) stop)
    have displaced {offset n : Nat} (here : offset = before.utf8ByteSize + old.utf8ByteSize + n)
        (behind : before.utf8ByteSize < offset) :
        Span.displace ⟨before.utf8ByteSize, before.utf8ByteSize + old.utf8ByteSize⟩
          new.utf8ByteSize offset = (before ++ new).utf8ByteSize + n := by
      rw [Span.displace_of_gt behind, here, Nat.add_sub_cancel_left, String.utf8ByteSize_append]
    have old : (before ++ old).utf8ByteSize = before.utf8ByteSize + old.utf8ByteSize :=
      String.utf8ByteSize_append
    rw [displaced startAt (by omega), displaced stopAt (by omega), startAt, stopAt, ← old,
      slice?_append_right, slice?_append_right]

end

end TypedSvelte
