import TypedSvelte.Position.Span

/-!
# Spans that keep apart

Inserted texts and mapped texts are found by their spans in the output. Of spans that come one after
the other, at most one contains an offset (`eq_of_contains`), those at or before an offset come first
(`takeWhile_eq_filter`), and `bytesOutside` is what is left of a text when all of them are deleted.
-/
namespace TypedSvelte

theorem Span.contains_iff (s : Span) (offset : Nat) :
    s.contains offset = true ↔ s.start ≤ offset ∧ offset < s.stop := by
  simp only [Span.contains, Bool.and_eq_true, decide_eq_true_eq]

def Span.Apart (a b : Span) : Prop := a.stop ≤ b.start ∨ b.stop ≤ a.start

instance (a b : Span) : Decidable (a.Apart b) := inferInstanceAs (Decidable (_ ∨ _))

theorem Span.Apart.symm {a b : Span} (apart : a.Apart b) : b.Apart a := Or.symm apart

def Span.Inside (inner outer : Span) : Prop := outer.start ≤ inner.start ∧ inner.stop ≤ outer.stop

instance (inner outer : Span) : Decidable (inner.Inside outer) :=
  inferInstanceAs (Decidable (_ ∧ _))

/-- Of spans in a row that do not overlap, only one contains an offset. -/
theorem eq_of_contains {α : Type} (span : α → Span) {items : List α}
    (apart : items.Pairwise fun a b => (span a).stop ≤ (span b).start) {offset : Nat} {a b : α}
    (aMember : a ∈ items) (aHolds : (span a).contains offset = true)
    (bMember : b ∈ items) (bHolds : (span b).contains offset = true) : b = a := by
  have aRange := ((span a).contains_iff offset).1 aHolds
  have bRange := ((span b).contains_iff offset).1 bHolds
  induction items with
  | nil => cases aMember
  | cons head rest ih =>
    obtain ⟨later, restApart⟩ := List.pairwise_cons.1 apart
    rcases List.mem_cons.1 aMember with rfl | aInRest
    · rcases List.mem_cons.1 bMember with rfl | bInRest
      · rfl
      · have := later b bInRest
        omega
    · rcases List.mem_cons.1 bMember with rfl | bInRest
      · have := later a aInRest
        omega
      · exact ih restApart aInRest bInRest

/-- Where all items with a property come before the others, the first of them in a row are all of
them, so that a search by halves finds the same place as a scan. -/
theorem takeWhile_eq_filter {α : Type} {p : α → Bool} {items : List α}
    (partitioned : items.Pairwise fun a b => p b = true → p a = true) :
    items.takeWhile p = items.filter p := by
  induction items with
  | nil => rfl
  | cons head rest ih =>
    obtain ⟨before, restPartitioned⟩ := List.pairwise_cons.1 partitioned
    by_cases holds : p head = true
    · rw [List.takeWhile_cons_of_pos holds, List.filter_cons_of_pos holds, ih restPartitioned]
    · rw [List.takeWhile_cons_of_neg holds, List.filter_cons_of_neg holds]
      symm
      apply List.filter_eq_nil_iff.2
      intro other member otherHolds
      exact holds (before other member otherHolds)

/-- The bytes that lie in none of the spans, the first one standing at `offset`. -/
def bytesOutside (spans : List Span) (offset : Nat) (content : List UInt8) : List UInt8 :=
  ((content.zipIdx offset).filter fun (_, i) => !spans.any (·.contains i)).map (·.1)

theorem bytesOutside_append (spans : List Span) (offset : Nat) (first second : List UInt8) :
    bytesOutside spans offset (first ++ second) =
      bytesOutside spans offset first ++ bytesOutside spans (offset + first.length) second := by
  simp [bytesOutside, List.zipIdx_append]

/-- Only the offsets of the content matter. -/
theorem bytesOutside_congr (spans others : List Span) {offset : Nat} {content : List UInt8}
    (agree : ∀ i, offset ≤ i → i < offset + content.length →
      spans.any (·.contains i) = others.any (·.contains i)) :
    bytesOutside spans offset content = bytesOutside others offset content := by
  unfold bytesOutside
  congr 1
  apply List.filter_congr
  rintro ⟨byte, i⟩ member
  have range := List.mem_zipIdx member
  simp only [agree i range.1 range.2.1]

theorem bytesOutside_nil (offset : Nat) (content : List UInt8) :
    bytesOutside [] offset content = content := by
  unfold bytesOutside
  rw [List.filter_eq_self.2 (by simp)]
  exact List.zipIdx_map_fst offset content

/-- Nothing is deleted where no span reaches. -/
theorem bytesOutside_of_apart {spans : List Span} {offset : Nat} {content : List UInt8}
    (apart : ∀ s ∈ spans, s.stop ≤ offset ∨ offset + content.length ≤ s.start) :
    bytesOutside spans offset content = content := by
  rw [bytesOutside_congr spans [], bytesOutside_nil]
  intro i low high
  simp only [List.any_nil, List.any_eq_false, Span.contains_iff]
  intro s member
  have := apart s member
  omega

/-- A span around the content deletes all of it. -/
theorem bytesOutside_of_covered {spans : List Span} {s : Span} {offset : Nat}
    {content : List UInt8} (member : s ∈ spans) (low : s.start ≤ offset)
    (high : offset + content.length ≤ s.stop) : bytesOutside spans offset content = [] := by
  unfold bytesOutside
  rw [List.map_eq_nil_iff, List.filter_eq_nil_iff]
  rintro ⟨byte, i⟩ indexed
  have range := List.mem_zipIdx indexed
  have inside : spans.any (·.contains i) = true := by
    apply List.any_eq_true.2
    refine ⟨s, member, (Span.contains_iff s i).2 ?_⟩
    omega
  simp [inside]

end TypedSvelte
