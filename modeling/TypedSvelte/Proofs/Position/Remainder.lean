import TypedSvelte.Proofs.Position.Layout
import TypedSvelte.Proofs.Position.Spans

/-!
# What is left of a range

A range is copied up to the first gap, between the gaps, and from the last gap on. `Remains` says
what these copies are: they come one after the other, overlap no gap, and leave out nothing else.
-/
namespace TypedSvelte

/-- The range between two offsets, if it covers anything. -/
def stretch (low high : Nat) : List Span := if low < high then [⟨low, high⟩] else []

private theorem mem_stretch {low high : Nat} {s : Span} :
    s ∈ stretch low high ↔ low < high ∧ s = ⟨low, high⟩ := by
  unfold stretch
  split
  · simp [*]
  · simp [*]

theorem stretch_eq_filter (s : Span) :
    stretch s.start s.stop = [s].filter fun s => s.start < s.stop := by
  by_cases filled : s.start < s.stop
  · simp [stretch, filled]
  · simp [stretch, filled]

/-- A copy between two cuts is mapped unless it is empty. -/
theorem mapped?_of_cuts {source : String} {low high : Nat} (first : IsCut source low)
    (last : IsCut source high) (ordered : low ≤ high) :
    ((Piece.copied ⟨low, high⟩).mapped? source).toList = stretch low high := by
  obtain ⟨text, slice⟩ := exists_slice? first last ordered
  have size := stop_of_slice? slice
  have covered : (Span.mk low high).text source = text := by
    rw [Span.text, slice]
    rfl
  rw [Piece.mapped?_copied, covered]
  unfold stretch
  by_cases blank : text = ""
  · rw [if_pos blank, if_neg]
    · rfl
    · rw [blank, String.utf8ByteSize_empty] at size
      omega
  · have filled : text.utf8ByteSize ≠ 0 := fun zero => blank (String.utf8ByteSize_eq_zero_iff.1 zero)
    rw [if_neg blank, if_pos]
    · rfl
    · omega

/-- The spans that remain of the range between two offsets without the gaps. -/
structure Remains (low high : Nat) (gaps kept : List Span) : Prop where
  gaps_within : ∀ gap ∈ gaps, low ≤ gap.start ∧ gap.stop ≤ high
  kept_within : ∀ s ∈ kept, low ≤ s.start ∧ s.start ≤ s.stop ∧ s.stop ≤ high
  ordered : kept.Pairwise fun a b => a.stop ≤ b.start
  clear : ∀ s ∈ kept, ∀ gap ∈ gaps, s.Apart gap
  complete : ∀ o, low ≤ o → o < high →
    (∃ s ∈ kept, s.contains o = true) ∨ ∃ gap ∈ gaps, gap.contains o = true

namespace Remains

variable {low high : Nat} {gap : Span} {gaps kept : List Span}

theorem done (low high : Nat) : Remains low high [] (stretch low high) where
  gaps_within := nofun
  kept_within s member := by
    obtain ⟨filled, rfl⟩ := mem_stretch.1 member
    exact ⟨Nat.le_refl _, Nat.le_of_lt filled, Nat.le_refl _⟩
  ordered := by
    unfold stretch
    split
    · exact List.pairwise_singleton _ _
    · exact .nil
  clear _ _ := nofun
  complete o above below := by
    refine Or.inl ⟨⟨low, high⟩, mem_stretch.2 ⟨by omega, rfl⟩, ?_⟩
    exact (Span.contains_iff _ o).2 ⟨above, below⟩

/-- A gap in front of a range of which the rest remains. -/
theorem step (remains : Remains gap.stop high gaps kept) (before : low ≤ gap.start)
    (forward : gap.start ≤ gap.stop) (fits : gap.stop ≤ high) :
    Remains low high (gap :: gaps) (stretch low gap.start ++ kept) where
  gaps_within other member := by
    rcases List.mem_cons.1 member with rfl | later
    · exact ⟨before, fits⟩
    · have := remains.gaps_within other later
      omega
  kept_within s member := by
    rcases List.mem_append.1 member with first | later
    · obtain ⟨filled, rfl⟩ := mem_stretch.1 first
      exact ⟨Nat.le_refl _, before, Nat.le_trans forward fits⟩
    · have := remains.kept_within s later
      omega
  ordered := by
    refine List.pairwise_append.2 ⟨(done low gap.start).ordered, remains.ordered, ?_⟩
    intro a aMember b bMember
    obtain ⟨_, rfl⟩ := mem_stretch.1 aMember
    exact Nat.le_trans forward (remains.kept_within b bMember).1
  clear s member other isGap := by
    rcases List.mem_append.1 member with first | later
    · obtain ⟨_, rfl⟩ := mem_stretch.1 first
      rcases List.mem_cons.1 isGap with rfl | behind
      · exact Or.inl (Nat.le_refl _)
      · exact Or.inl (Nat.le_trans forward (remains.gaps_within other behind).1)
    · rcases List.mem_cons.1 isGap with rfl | behind
      · exact Or.inr (remains.kept_within s later).1
      · exact remains.clear s later other behind
  complete o above below := by
    by_cases early : o < gap.start
    · have first : ⟨low, gap.start⟩ ∈ stretch low gap.start := mem_stretch.2 ⟨by omega, rfl⟩
      exact Or.inl ⟨_, List.mem_append_left _ first, (Span.contains_iff _ o).2 ⟨above, early⟩⟩
    · by_cases within : o < gap.stop
      · exact Or.inr ⟨gap, List.mem_cons_self, (gap.contains_iff o).2 (by omega)⟩
      · rcases remains.complete o (by omega) below with ⟨s, member, holds⟩ | ⟨other, member, holds⟩
        · exact Or.inl ⟨s, List.mem_append_right _ member, holds⟩
        · exact Or.inr ⟨other, List.mem_cons_of_mem _ member, holds⟩

/-- An empty gap takes nothing away. -/
theorem of_cons_empty {cut : Nat} (remains : Remains low high (⟨cut, cut⟩ :: gaps) kept) :
    Remains low high gaps kept where
  gaps_within gap member := remains.gaps_within gap (List.mem_cons_of_mem _ member)
  kept_within := remains.kept_within
  ordered := remains.ordered
  clear s member gap isGap := remains.clear s member gap (List.mem_cons_of_mem _ isGap)
  complete o above below := by
    rcases remains.complete o above below with isKept | ⟨gap, member, holds⟩
    · exact Or.inl isKept
    · rcases List.mem_cons.1 member with rfl | later
      · have range := (Span.contains_iff _ o).1 holds
        exact absurd range.2 (Nat.not_lt_of_le range.1)
      · exact Or.inr ⟨gap, later, holds⟩

/-- An empty span at the end adds nothing. -/
theorem append_end (remains : Remains low high gaps kept) (ordered : low ≤ high) :
    Remains low high gaps (kept ++ [⟨high, high⟩]) where
  gaps_within := remains.gaps_within
  kept_within s member := by
    rcases List.mem_append.1 member with first | last
    · exact remains.kept_within s first
    · cases List.mem_singleton.1 last
      exact ⟨ordered, Nat.le_refl _, Nat.le_refl _⟩
  ordered := by
    refine List.pairwise_append.2 ⟨remains.ordered, List.pairwise_singleton _ _, ?_⟩
    intro a aMember b bMember
    cases List.mem_singleton.1 bMember
    exact (remains.kept_within a aMember).2.2
  clear s member gap isGap := by
    rcases List.mem_append.1 member with first | last
    · exact remains.clear s first gap isGap
    · cases List.mem_singleton.1 last
      exact Or.inr (remains.gaps_within gap isGap).2
  complete o above below :=
    (remains.complete o above below).imp_left fun ⟨s, member, holds⟩ =>
      ⟨s, List.mem_append_left _ member, holds⟩

/-- An offset is kept exactly if it is in no gap. -/
theorem exists_contains_iff (remains : Remains low high gaps kept) {o : Nat} (above : low ≤ o)
    (below : o < high) :
    (∃ s ∈ kept, s.contains o = true) ↔ ¬ ∃ gap ∈ gaps, gap.contains o = true := by
  constructor
  · rintro ⟨s, member, holds⟩ ⟨gap, isGap, inGap⟩
    have range := (s.contains_iff o).1 holds
    have gapRange := (gap.contains_iff o).1 inGap
    rcases remains.clear s member gap isGap with before | after
    · omega
    · omega
  · intro outside
    exact (remains.complete o above below).resolve_right outside

end Remains

end TypedSvelte
