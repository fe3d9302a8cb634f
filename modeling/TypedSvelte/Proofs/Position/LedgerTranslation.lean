import Mathlib.Data.Nat.Basic
import Mathlib.Order.Monotone.Defs
import TypedSvelte.Proofs.Position.LedgerOrder
import TypedSvelte.Proofs.Position.Spans

/-!
# The two translations of a ledger

Both translations search the records, one by source offset and one by generated offset. Each search
equals one pass over the entries that carries the number of bytes inserted so far (`forward`,
`backward`), and in that form they are compared entry by entry. Where a search looks first does not
matter, since the records increase under both keys (`searches_eq_filter`).

Offsets are unbounded here. `toGenerated_le` bounds every generated offset by the source offset and
the number of inserted bytes, so that a machine word that holds this sum holds all of them.
-/
namespace TypedSvelte

/-- The place of an inserted text in the generated output. -/
def Insertion.span (r : Insertion) : Span := ⟨r.generated, r.generated + r.length⟩

private theorem Insertion.contains_span (r : Insertion) (offset : Nat) :
    r.span.contains offset = true ↔ r.generated ≤ offset ∧ offset < r.generated + r.length :=
  Span.contains_iff r.span offset

namespace Ledger

/-- The number of bytes that a ledger inserts: the total of its last record. -/
def inserted (ledger : Ledger) : Nat := (ledger.insertions.getLast?.map (·.total)).getD 0

/-- The generated offset of a source offset, `total` bytes having been inserted before the
entries. -/
def forward (total offset : Nat) : List Entry → Nat
  | [] => offset + total
  | entry :: rest =>
    if offset < entry.position then offset + total
    else forward (total + entry.text.utf8ByteSize) offset rest

/-- Where a generated offset comes from, `total` bytes having been inserted before the entries. -/
def backward (total offset : Nat) : List Entry → OriginalPosition
  | [] => .exactly (offset - total)
  | entry :: rest =>
    if offset < entry.position + total then .exactly (offset - total)
    else if offset < entry.position + total + entry.text.utf8ByteSize then
      .anchored entry.position
    else backward (total + entry.text.utf8ByteSize) offset rest

/-- The record of an entry, `total` bytes having been inserted before it. -/
def record (total : Nat) (entry : Entry) : Insertion :=
  ⟨entry.position, entry.position + total, entry.text.utf8ByteSize, entry.text,
    total + entry.text.utf8ByteSize⟩

theorem placed_cons (total : Nat) (entry : Entry) (rest : List Entry) :
    placed total (entry :: rest) =
      record total entry :: placed (total + entry.text.utf8ByteSize) rest := rfl

private theorem contains_record (total offset : Nat) (entry : Entry) :
    (record total entry).span.contains offset = true ↔
      entry.position + total ≤ offset ∧
        offset < entry.position + total + entry.text.utf8ByteSize :=
  (record total entry).contains_span offset

/-- Records stand behind everything that is inserted before them. -/
theorem le_generated_of_placed {total low : Nat} {entries : List Entry}
    (above : ∀ e ∈ entries, low ≤ e.position) {r : Insertion} (member : r ∈ placed total entries) :
    low + total ≤ r.generated := by
  induction entries generalizing total with
  | nil => cases member
  | cons entry rest ih =>
    rcases List.mem_cons.1 member with rfl | inRest
    · exact Nat.add_le_add_right (above entry List.mem_cons_self) total
    · have later := ih (fun e inList => above e (List.mem_cons_of_mem entry inList)) inRest
      omega

/-- The records after an entry stand behind its text. -/
theorem end_le_generated {total : Nat} {entry : Entry} {rest : List Entry}
    (increasing : Increasing (entry :: rest)) {r : Insertion}
    (member : r ∈ placed (total + entry.text.utf8ByteSize) rest) :
    entry.position + total + entry.text.utf8ByteSize < r.generated := by
  have above := (increasing_cons.1 increasing).1
  have behind : entry.position + 1 + (total + entry.text.utf8ByteSize) ≤ r.generated :=
    le_generated_of_placed above member
  omega

theorem head_le_generated {total : Nat} {entry : Entry} {rest : List Entry}
    (increasing : Increasing (entry :: rest)) {r : Insertion}
    (member : r ∈ placed total (entry :: rest)) : entry.position + total ≤ r.generated := by
  rcases List.mem_cons.1 member with rfl | inRest
  · exact Nat.le_refl _
  · have behind := end_le_generated increasing inRest
    omega

private theorem add_lastTotal_eq_forward (total offset : Nat) (entries : List Entry) :
    offset + (((placed total entries).takeWhile (·.position ≤ offset)).getLast?.elim total
      (·.total)) = forward total offset entries := by
  induction entries generalizing total with
  | nil => rfl
  | cons entry rest ih =>
    simp only [placed, forward, List.takeWhile_cons]
    by_cases before : offset < entry.position
    · simp [before, Nat.not_le.2 before]
    · rw [if_neg before, ← ih]
      simp only [Nat.not_lt.1 before, decide_true, if_true, List.getLast?_cons, Option.elim_some]
      cases ((placed (total + entry.text.utf8ByteSize) rest).takeWhile
        (·.position ≤ offset)).getLast? <;> rfl

theorem toGenerated_eq_forward (ledger : Ledger) (offset : Nat) :
    ledger.toGenerated offset = forward 0 offset ledger.entries := by
  rw [← add_lastTotal_eq_forward]
  unfold toGenerated insertions
  split
  · rename_i found
    rw [found]
    rfl
  · rename_i found
    rw [found]
    rfl

/-- What `toOriginal` makes of the last record that starts at or before an offset. -/
def readBack (total offset : Nat) : Option Insertion → OriginalPosition
  | some last =>
    if offset < last.generated + last.length then .anchored last.position
    else .exactly (offset - last.total)
  | none => .exactly (offset - total)

private theorem readBack_eq_backward {entries : List Entry} (increasing : Increasing entries)
    (total offset : Nat) :
    readBack total offset ((placed total entries).takeWhile (·.generated ≤ offset)).getLast? =
      backward total offset entries := by
  induction entries generalizing total with
  | nil => rfl
  | cons entry rest ih =>
    have tail := ih (increasing_cons.1 increasing).2 (total + entry.text.utf8ByteSize)
    simp only [placed, backward, List.takeWhile_cons]
    by_cases before : offset < entry.position + total
    · simp [before, Nat.not_le.2 before, readBack]
    · rw [if_neg before]
      simp only [Nat.not_lt.1 before, decide_true, if_true, List.getLast?_cons]
      by_cases inText : offset < entry.position + total + entry.text.utf8ByteSize
      · -- The search stops here, since the next record starts behind this text.
        have stops : (placed (total + entry.text.utf8ByteSize) rest).takeWhile
            (·.generated ≤ offset) = [] := by
          cases hplaced : placed (total + entry.text.utf8ByteSize) rest with
          | nil => rfl
          | cons next others =>
            have member : next ∈ placed (total + entry.text.utf8ByteSize) rest := by
              rw [hplaced]
              exact List.mem_cons_self
            have behind := end_le_generated increasing member
            rw [List.takeWhile_cons_of_neg]
            simp only [decide_eq_true_eq]
            omega
        simp [stops, readBack, inText]
      · rw [if_neg inText, ← tail]
        cases ((placed (total + entry.text.utf8ByteSize) rest).takeWhile
          (·.generated ≤ offset)).getLast? with
        | none => simp [readBack, inText]
        | some last => rfl

theorem toOriginal_eq_backward {ledger : Ledger} (increasing : Increasing ledger.entries)
    (offset : Nat) : ledger.toOriginal offset = backward 0 offset ledger.entries := by
  rw [← readBack_eq_backward increasing]
  unfold toOriginal insertions
  split
  · rename_i found
    rw [found]
    rfl
  · rename_i found
    rw [found]
    rfl

private theorem le_forward (total offset : Nat) (entries : List Entry) :
    offset + total ≤ forward total offset entries := by
  induction entries generalizing total with
  | nil => exact Nat.le_refl _
  | cons entry rest ih =>
    have tail := ih (total + entry.text.utf8ByteSize)
    unfold forward
    split
    · exact Nat.le_refl _
    · omega

private theorem forward_lt {p q : Nat} (less : p < q) (total : Nat) (entries : List Entry) :
    forward total p entries < forward total q entries := by
  induction entries generalizing total with
  | nil => exact Nat.add_lt_add_right less total
  | cons entry rest ih =>
    have tail := le_forward (total + entry.text.utf8ByteSize) q rest
    unfold forward
    split
    · split
      · exact Nat.add_lt_add_right less total
      · omega
    · rw [if_neg (by omega)]
      exact ih _

def lengths : List Entry → Nat
  | [] => 0
  | entry :: rest => entry.text.utf8ByteSize + lengths rest

@[simp]
theorem lengths_cons (entry : Entry) (rest : List Entry) :
    lengths (entry :: rest) = entry.text.utf8ByteSize + lengths rest := rfl

theorem lastTotal_placed (total : Nat) (entries : List Entry) :
    ((placed total entries).getLast?.map (·.total)).getD total = total + lengths entries := by
  induction entries generalizing total with
  | nil => rfl
  | cons entry rest ih =>
    rw [lengths_cons, ← Nat.add_assoc, ← ih]
    simp only [placed, List.getLast?_cons, Option.map_some, Option.getD_some]
    cases (placed (total + entry.text.utf8ByteSize) rest).getLast? <;> rfl

theorem inserted_eq_lengths (ledger : Ledger) : ledger.inserted = lengths ledger.entries := by
  have last := lastTotal_placed 0 ledger.entries
  rw [Nat.zero_add] at last
  exact last

private theorem forward_le (total offset : Nat) (entries : List Entry) :
    forward total offset entries ≤ offset + total + lengths entries := by
  induction entries generalizing total with
  | nil => exact Nat.le_refl _
  | cons entry rest ih =>
    have tail := ih (total + entry.text.utf8ByteSize)
    rw [lengths_cons]
    unfold forward
    split
    · omega
    · omega

/-- No generated offset exceeds the source offset by more than the inserted bytes. -/
theorem toGenerated_le (ledger : Ledger) (offset : Nat) :
    ledger.toGenerated offset ≤ offset + ledger.inserted := by
  rw [toGenerated_eq_forward, inserted_eq_lengths]
  exact forward_le 0 offset ledger.entries

/-- Passing an insertion forwards means passing its text, so the way back passes it as well. -/
theorem backward_forward (total offset : Nat) (entries : List Entry) :
    backward total (forward total offset entries) entries = .exactly offset := by
  induction entries generalizing total with
  | nil => simp [forward, backward]
  | cons entry rest ih =>
    unfold forward
    split
    · rename_i before
      rw [backward, if_pos (by omega), Nat.add_sub_cancel]
    · have tail := le_forward (total + entry.text.utf8ByteSize) offset rest
      rw [backward, if_neg (by omega), if_neg (by omega)]
      exact ih _

/-- An offset in inserted text leads to the place of the insertion. -/
theorem backward_of_contains {entries : List Entry} (increasing : Increasing entries)
    {total offset : Nat} {r : Insertion} (member : r ∈ placed total entries)
    (holds : r.span.contains offset = true) :
    backward total offset entries = .anchored r.position := by
  induction entries generalizing total with
  | nil => cases member
  | cons entry rest ih =>
    rcases List.mem_cons.1 member with rfl | inRest
    · obtain ⟨low, high⟩ := (contains_record total offset entry).1 holds
      rw [backward, if_neg (by omega), if_pos high]
    · obtain ⟨low, _⟩ := (r.contains_span offset).1 holds
      have behind := end_le_generated increasing inRest
      rw [backward, if_neg (by omega), if_neg (by omega)]
      exact ih (increasing_cons.1 increasing).2 inRest

/-- Each text ends before the next one begins. -/
theorem apart_placed {entries : List Entry} (increasing : Increasing entries) (total : Nat) :
    (placed total entries).Pairwise fun a b => a.span.stop ≤ b.span.start := by
  induction entries generalizing total with
  | nil => exact List.Pairwise.nil
  | cons entry rest ih =>
    refine List.pairwise_cons.2 ⟨?_, ih (increasing_cons.1 increasing).2 _⟩
    exact fun r inRest => Nat.le_of_lt (end_le_generated increasing inRest)

theorem positions_placed (total : Nat) (entries : List Entry) :
    (placed total entries).map (·.position) = entries.map (·.position) := by
  induction entries generalizing total with
  | nil => rfl
  | cons entry rest ih =>
    rw [placed_cons, List.map_cons, List.map_cons, ih]
    rfl

/-- The positions of the records increase as their places do. -/
theorem positions_increase {entries : List Entry} (increasing : Increasing entries) (total : Nat) :
    (placed total entries).Pairwise fun a b => a.position < b.position := by
  have positions : ((placed total entries).map (·.position)).Pairwise (· < ·) := by
    rw [positions_placed]
    exact List.pairwise_map.2 increasing
  exact List.pairwise_map.1 positions

/-- Both searches stop behind all records at or before an offset, not only behind the first ones. -/
theorem searches_eq_filter {ledger : Ledger} (increasing : Increasing ledger.entries)
    (offset : Nat) :
    ledger.insertions.takeWhile (·.position ≤ offset) =
        ledger.insertions.filter (·.position ≤ offset) ∧
      ledger.insertions.takeWhile (·.generated ≤ offset) =
        ledger.insertions.filter (·.generated ≤ offset) := by
  constructor
  · apply takeWhile_eq_filter
    refine (positions_increase increasing 0).imp ?_
    intro a b less started
    simp only [decide_eq_true_eq] at started ⊢
    omega
  · apply takeWhile_eq_filter
    refine (apart_placed increasing 0).imp ?_
    intro a b apart started
    simp only [decide_eq_true_eq] at started ⊢
    change a.generated + a.length ≤ b.generated at apart
    omega

/-- An offset outside of all inserted text comes from a source offset that leads to it. The bound
`low` is what the entries passed so far leave for that source offset. -/
theorem exists_forward_eq {entries : List Entry} (increasing : Increasing entries)
    (total low : Nat) {offset : Nat} (above : ∀ e ∈ entries, low ≤ e.position)
    (reached : low + total ≤ offset)
    (outside : ∀ r ∈ placed total entries, r.span.contains offset = false) :
    ∃ o, low ≤ o ∧ backward total offset entries = .exactly o ∧
      forward total o entries = offset := by
  induction entries generalizing total low with
  | nil =>
    refine ⟨offset - total, by omega, rfl, ?_⟩
    change offset - total + total = offset
    omega
  | cons entry rest ih =>
    have entryAbove := above entry List.mem_cons_self
    by_cases before : offset < entry.position + total
    · refine ⟨offset - total, by omega, ?_, ?_⟩
      · rw [backward, if_pos before]
      · rw [forward, if_pos (by omega)]
        omega
    · have notHeld : ¬ (entry.position + total ≤ offset ∧
          offset < entry.position + total + entry.text.utf8ByteSize) := by
        intro held
        have holds := (contains_record total offset entry).2 held
        rw [outside (record total entry) List.mem_cons_self] at holds
        cases holds
      obtain ⟨o, oLow, back, forth⟩ := ih (increasing_cons.1 increasing).2
        (total + entry.text.utf8ByteSize) entry.position
        (fun e inRest => Nat.le_of_lt ((increasing_cons.1 increasing).1 e inRest)) (by omega)
        (fun r inRest => outside r (List.mem_cons_of_mem _ inRest))
      refine ⟨o, Nat.le_trans entryAbove oLow, ?_, ?_⟩
      · rw [backward, if_neg before, if_neg (by omega)]
        exact back
      · rw [forward, if_neg (by omega)]
        exact forth

private theorem le_offset_backward {entries : List Entry} (increasing : Increasing entries)
    {total low offset : Nat} (above : ∀ e ∈ entries, low ≤ e.position)
    (reached : low + total ≤ offset) : low ≤ (backward total offset entries).offset := by
  induction entries generalizing total low with
  | nil =>
    change low ≤ offset - total
    omega
  | cons entry rest ih =>
    have entryAbove := above entry List.mem_cons_self
    unfold backward
    split
    · change low ≤ offset - total
      omega
    · split
      · exact entryAbove
      · refine Nat.le_trans entryAbove (ih (increasing_cons.1 increasing).2 ?_ (by omega))
        exact fun e inRest => Nat.le_of_lt ((increasing_cons.1 increasing).1 e inRest)

private theorem offset_backward_mono {entries : List Entry} (increasing : Increasing entries)
    {g h : Nat} (le : g ≤ h) (total : Nat) :
    (backward total g entries).offset ≤ (backward total h entries).offset := by
  induction entries generalizing total with
  | nil => exact Nat.sub_le_sub_right le total
  | cons entry rest ih =>
    obtain ⟨above, restIncreasing⟩ := increasing_cons.1 increasing
    have behind : entry.position + total + entry.text.utf8ByteSize ≤ h →
        entry.position ≤ (backward (total + entry.text.utf8ByteSize) h rest).offset := by
      intro reached
      exact le_offset_backward restIncreasing
        (fun e inRest => Nat.le_of_lt (above e inRest)) (by omega)
    simp only [backward]
    by_cases gBefore : g < entry.position + total
    · rw [if_pos gBefore]
      change g - total ≤ _
      split
      · exact Nat.sub_le_sub_right le total
      · split
        · change g - total ≤ entry.position
          omega
        · have := behind (by omega)
          omega
    · have hBefore : ¬ h < entry.position + total := by omega
      rw [if_neg gBefore, if_neg hBefore]
      by_cases gInText : g < entry.position + total + entry.text.utf8ByteSize
      · rw [if_pos gInText]
        split
        · exact Nat.le_refl _
        · exact behind (by omega)
      · have hInText : ¬ h < entry.position + total + entry.text.utf8ByteSize := by omega
        rw [if_neg gInText, if_neg hInText]
        exact ih restIncreasing _

/-- What stands in the output up to its end comes from the source up to its end. -/
theorem offset_backward_le {entries : List Entry} {total offset size : Nat}
    (inside : ∀ e ∈ entries, e.position ≤ size)
    (reached : offset ≤ size + total + lengths entries) :
    (backward total offset entries).offset ≤ size := by
  induction entries generalizing total with
  | nil =>
    change offset - total ≤ size
    change offset ≤ size + total + 0 at reached
    omega
  | cons entry rest ih =>
    obtain ⟨entryInside, restInside⟩ := List.forall_mem_cons.1 inside
    rw [lengths_cons] at reached
    unfold backward
    split
    · change offset - total ≤ size
      omega
    · split
      · exact entryInside
      · exact ih restInside (by omega)

/-- The record is the only one of the ledger whose text holds the generated offset. -/
def HoldsAlone (ledger : Ledger) (r : Insertion) (offset : Nat) : Prop :=
  r ∈ ledger.insertions ∧ r.span.contains offset = true ∧
    ∀ other ∈ ledger.insertions, other.span.contains offset = true → other = r

/-- The text of no record holds the generated offset. -/
def HeldByNone (ledger : Ledger) (offset : Nat) : Prop :=
  ∀ r ∈ ledger.insertions, r.span.contains offset = false

theorem heldByNone_or_exists {ledger : Ledger} (increasing : Increasing ledger.entries)
    (offset : Nat) : ledger.HeldByNone offset ∨ ∃ r, ledger.HoldsAlone r offset := by
  by_cases held : ∃ r ∈ ledger.insertions, r.span.contains offset = true
  · obtain ⟨r, member, holds⟩ := held
    exact Or.inr ⟨r, member, holds, fun other otherMember otherHolds =>
      eq_of_contains Insertion.span (apart_placed increasing 0) member holds otherMember
        otherHolds⟩
  · refine Or.inl fun r member => ?_
    cases contained : r.span.contains offset with
    | false => rfl
    | true => exact absurd ⟨r, member, contained⟩ held

theorem toOriginal_of_holdsAlone {ledger : Ledger} (increasing : Increasing ledger.entries)
    {r : Insertion} {offset : Nat} (alone : ledger.HoldsAlone r offset) :
    ledger.toOriginal offset = .anchored r.position := by
  rw [toOriginal_eq_backward increasing]
  exact backward_of_contains increasing alone.1 alone.2.1

theorem toOriginal_of_heldByNone {ledger : Ledger} (increasing : Increasing ledger.entries)
    {offset : Nat} (free : ledger.HeldByNone offset) :
    ∃ o, ledger.toOriginal offset = .exactly o ∧ ledger.toGenerated o = offset := by
  obtain ⟨o, _, back, forth⟩ := exists_forward_eq increasing 0 0
    (fun e _ => Nat.zero_le e.position) (Nat.zero_le offset) free
  exact ⟨o, (toOriginal_eq_backward increasing offset).trans back,
    (toGenerated_eq_forward ledger o).trans forth⟩

/-- Outside of inserted text the two translations are inverse to each other, for every ledger that
calls of `insert` lead to: a generated offset either lies in the text of exactly one record, which
it is anchored at, or in none, and then it comes from the source offset that leads to it. Both
translations keep the order. -/
theorem translations_inverse (calls : List (Nat × String)) :
    (∀ p, (ofCalls calls).toOriginal ((ofCalls calls).toGenerated p) = .exactly p) ∧
      (∀ g, Xor (∃ r, (ofCalls calls).HoldsAlone r g ∧
            (ofCalls calls).toOriginal g = .anchored r.position)
          ((ofCalls calls).HeldByNone g ∧ ∃ o, (ofCalls calls).toOriginal g = .exactly o ∧
            (ofCalls calls).toGenerated o = g)) ∧
      StrictMono (ofCalls calls).toGenerated ∧
      (Monotone fun g => ((ofCalls calls).toOriginal g).offset) ∧
      ∀ p, (ofCalls calls).toGenerated p ≤ p + (ofCalls calls).inserted := by
  have increasing := increasing_ofCalls calls
  refine ⟨?_, ?_, ?_, ?_, toGenerated_le (ofCalls calls)⟩
  · intro p
    rw [toOriginal_eq_backward increasing, toGenerated_eq_forward]
    exact backward_forward 0 p _
  · intro g
    rcases heldByNone_or_exists increasing g with free | ⟨r, alone⟩
    · refine Or.inr ⟨⟨free, toOriginal_of_heldByNone increasing free⟩, ?_⟩
      rintro ⟨r, alone, _⟩
      have holds := alone.2.1
      rw [free r alone.1] at holds
      cases holds
    · refine Or.inl ⟨⟨r, alone, toOriginal_of_holdsAlone increasing alone⟩, ?_⟩
      rintro ⟨free, _⟩
      have holds := alone.2.1
      rw [free r alone.1] at holds
      cases holds
  · intro p q less
    rw [toGenerated_eq_forward, toGenerated_eq_forward]
    exact forward_lt less 0 _
  · intro g h le
    simp only [toOriginal_eq_backward increasing]
    exact offset_backward_mono increasing le 0

end Ledger

end TypedSvelte
