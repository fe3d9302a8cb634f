import TypedSvelte.Proofs.Position.Drafting

/-!
# Round trips through a source map

Source spans may be copied and replaced in any order and any number of times, so the way forward is
a scan that prefers copies and the way back is a search by generated offset. The two agree all the
same (`SourceMap.RoundTrips`): what a copy holds leads back to where it came from, and of all copies
of a byte the way forward takes the first.
-/
namespace TypedSvelte.SourceMap

variable {mappings : List Mapping}

/-- Inside a mapping the answer counts from the beginnings of its two spans. -/
theorem originalPosition?_of_contains (ordered : Ordered mappings) {m : Mapping}
    (member : m ∈ mappings) {g : Nat} (holds : m.generated.contains g = true) :
    (SourceMap.mk mappings).originalPosition? g =
      some (m.original.start + min (g - m.generated.start) m.original.size) := by
  unfold originalPosition?
  rw [(covering?_eq_some_iff ordered g m).2 ⟨member, holds⟩]
  rfl

/-- A mapping covers the offset at which it begins. -/
theorem contains_start (ordered : Ordered mappings) {m : Mapping} (member : m ∈ mappings) :
    m.generated.contains m.generated.start = true :=
  (m.generated.contains_iff _).2 ⟨Nat.le_refl _, ordered.nonempty m member⟩

/-- Offsets of a verbatim mapping correspond one to one. -/
theorem verbatim_offset {m : Mapping} (verbatim : m.isVerbatim = true) {g : Nat}
    (holds : m.generated.contains g = true) :
    m.original.start + min (g - m.generated.start) m.original.size =
        m.original.start + (g - m.generated.start) ∧
      m.original.contains (m.original.start + (g - m.generated.start)) = true := by
  have same : m.generated.size = m.original.size := eq_of_beq verbatim
  obtain ⟨low, high⟩ := (m.generated.contains_iff g).1 holds
  simp only [Span.size] at same
  refine ⟨?_, (m.original.contains_iff _).2 ⟨Nat.le_add_right _ _, ?_⟩⟩
  · rw [Span.size, Nat.min_eq_left (by omega)]
  · omega

/-- The generated offset that a verbatim mapping has for one of its source offsets leads back. -/
theorem back_of_verbatim (ordered : Ordered mappings) {m : Mapping} (member : m ∈ mappings)
    (verbatim : m.isVerbatim = true) {o : Nat} (holds : m.original.contains o = true) :
    m.generated.contains (m.generated.start + (o - m.original.start)) = true ∧
      (SourceMap.mk mappings).originalPosition? (m.generated.start + (o - m.original.start)) =
        some o ∧
      (SourceMap.mk mappings).toOriginal (m.generated.start + (o - m.original.start)) =
        .exactly o := by
  have same : m.generated.size = m.original.size := eq_of_beq verbatim
  obtain ⟨low, high⟩ := (m.original.contains_iff o).1 holds
  simp only [Span.size] at same
  have covers : m.generated.contains (m.generated.start + (o - m.original.start)) = true :=
    (m.generated.contains_iff _).2 ⟨Nat.le_add_right _ _, by omega⟩
  have place : m.original.start + (m.generated.start + (o - m.original.start) - m.generated.start) =
      o := by omega
  refine ⟨covers, ?_, ?_⟩
  · rw [originalPosition?_of_contains ordered member covers,
      (verbatim_offset verbatim covers).1, place]
  · exact (toOriginal_eq_exactly_iff ordered _ o).2 ⟨m, member, covers, verbatim, place⟩

/-- A replacement is answered with the beginning of what it replaces, as synthetic text. -/
theorem back_of_replacement (ordered : Ordered mappings) {m : Mapping} (member : m ∈ mappings)
    (replaced : m.isVerbatim = false) :
    (SourceMap.mk mappings).originalPosition? m.generated.start = some m.original.start ∧
      (SourceMap.mk mappings).toOriginal m.generated.start = .anchored m.original.start := by
  have covers := contains_start ordered member
  constructor
  · rw [originalPosition?_of_contains ordered member covers, Nat.sub_self, Nat.zero_min,
      Nat.add_zero]
  · unfold toOriginal
    rw [(covering?_eq_some_iff ordered _ m).2 ⟨member, covers⟩]
    simp only [replaced, Bool.false_eq_true, if_false]

/-- The mapping is a verbatim one that holds the source offset, and none before it in the row is. -/
structure CopiesFirst (mappings : List Mapping) (o : Nat) (m : Mapping) : Prop where
  member : m ∈ mappings
  verbatim : m.isVerbatim = true
  holds : m.original.contains o = true
  first : ∀ other ∈ mappings, other.isVerbatim = true → other.original.contains o = true →
    other = m ∨ m.generated.stop ≤ other.generated.start

/-- Among the verbatim mappings that hold an offset there is a first one, which the scan finds. -/
theorem exists_copiesFirst (ordered : Ordered mappings) {o : Nat} {n : Mapping}
    (member : n ∈ mappings) (verbatim : n.isVerbatim = true)
    (holds : n.original.contains o = true) :
    ∃ m, CopiesFirst mappings o m ∧ (SourceMap.mk mappings).generatedPosition? o =
      some (m.generated.start + (o - m.original.start)) := by
  cases found : (mappings.filter (·.original.contains o)).find? (·.isVerbatim) with
  | none =>
    have passed := List.find?_eq_none.1 found n (List.mem_filter.2 ⟨member, holds⟩)
    exact absurd verbatim passed
  | some m =>
    refine ⟨m, ?_, by simp only [generatedPosition?, found]⟩
    obtain ⟨mVerbatim, before, after, split, earlier⟩ := List.find?_eq_some_iff_append.1 found
    have mHolding : m ∈ mappings.filter (·.original.contains o) := List.mem_of_find?_eq_some found
    obtain ⟨mMember, mHolds⟩ := List.mem_filter.1 mHolding
    refine ⟨mMember, mVerbatim, mHolds, ?_⟩
    intro other otherMember otherVerbatim otherHolds
    have apart := ordered.apart.filter (·.original.contains o)
    have otherHolding : other ∈ mappings.filter (·.original.contains o) :=
      List.mem_filter.2 ⟨otherMember, otherHolds⟩
    rw [split] at apart otherHolding
    rcases List.mem_append.1 otherHolding with isEarlier | isLater
    · have plain := earlier other isEarlier
      rw [otherVerbatim] at plain
      cases plain
    · rcases List.mem_cons.1 isLater with rfl | behind
      · exact Or.inl rfl
      · have later := (List.pairwise_append.1 apart).2.1
        exact Or.inr ((List.pairwise_cons.1 later).1 other behind)

/-- Without a verbatim mapping the scan gives the beginning of a mapping that holds the offset. -/
theorem generatedPosition?_of_replaced {o : Nat}
    (replaced : ∀ m ∈ mappings, m.original.contains o = true → m.isVerbatim = false) :
    (SourceMap.mk mappings).generatedPosition? o =
      (mappings.find? (·.original.contains o)).map (·.generated.start) := by
  have unfound : (mappings.filter (·.original.contains o)).find? (·.isVerbatim) = none := by
    apply List.find?_eq_none.2
    intro m member
    obtain ⟨inMap, holds⟩ := List.mem_filter.1 member
    rw [replaced m inMap holds]
    exact Bool.false_ne_true
  simp only [generatedPosition?, unfound, List.head?_filter]

theorem generatedPosition?_eq_none_iff (ordered : Ordered mappings) (o : Nat) :
    (SourceMap.mk mappings).generatedPosition? o = none ↔
      ∀ m ∈ mappings, m.original.contains o = false := by
  by_cases copied : ∃ n ∈ mappings, n.isVerbatim = true ∧ n.original.contains o = true
  · obtain ⟨n, member, verbatim, holds⟩ := copied
    obtain ⟨m, _, forth⟩ := exists_copiesFirst ordered member verbatim holds
    rw [forth]
    constructor
    · intro absent
      cases absent
    · intro absent
      rw [absent n member] at holds
      cases holds
  · have replaced : ∀ m ∈ mappings, m.original.contains o = true → m.isVerbatim = false := by
      intro m member holds
      rw [Bool.eq_false_iff]
      intro verbatim
      exact copied ⟨m, member, verbatim, holds⟩
    rw [generatedPosition?_of_replaced replaced, Option.map_eq_none_iff, List.find?_eq_none]
    simp only [Bool.not_eq_true]

/-- Forward and backward queries fit together, for every source offset and every generated one. -/
structure RoundTrips (map : SourceMap) : Prop where
  /-- Only what no mapping holds has no generated offset. -/
  dropped : ∀ o, map.generatedPosition? o = none ↔
    ∀ m ∈ map.mappings, m.original.contains o = false
  /-- What a verbatim mapping holds leads to an offset that leads back exactly. -/
  copied : ∀ o, (∃ m ∈ map.mappings, m.isVerbatim = true ∧ m.original.contains o = true) →
    ∃ g, map.generatedPosition? o = some g ∧ map.originalPosition? g = some o ∧
      map.toOriginal g = .exactly o
  /-- What only other mappings hold leads to the beginning of one of them, which is answered with
  the beginning of its source span, as synthetic text. -/
  replaced : ∀ o, (∃ m ∈ map.mappings, m.original.contains o = true) →
    (∀ m ∈ map.mappings, m.original.contains o = true → m.isVerbatim = false) →
    ∃ m ∈ map.mappings, m.original.contains o = true ∧
      map.generatedPosition? o = some m.generated.start ∧
      map.originalPosition? m.generated.start = some m.original.start ∧
      map.toOriginal m.generated.start = .anchored m.original.start
  /-- From a generated offset that a verbatim mapping covers, the way back and forth leads to this
  offset or an earlier one of the same source offset. -/
  earliest : ∀ g o, (∃ m ∈ map.mappings, m.isVerbatim = true ∧ m.generated.contains g = true) →
    map.originalPosition? g = some o →
    ∃ earlier ≤ g, map.generatedPosition? o = some earlier ∧
      map.originalPosition? earlier = some o

private theorem roundTrips_of_ordered (ordered : Ordered mappings) :
    (SourceMap.mk mappings).RoundTrips := by
  refine ⟨generatedPosition?_eq_none_iff ordered, ?_, ?_, ?_⟩
  · rintro o ⟨n, member, verbatim, holds⟩
    obtain ⟨m, copies, forth⟩ := exists_copiesFirst ordered member verbatim holds
    obtain ⟨_, back, answer⟩ := back_of_verbatim ordered copies.member copies.verbatim copies.holds
    exact ⟨_, forth, back, answer⟩
  · rintro o ⟨n, member, holds⟩ replaced
    have forth := generatedPosition?_of_replaced replaced
    cases found : mappings.find? (·.original.contains o) with
    | none => exact absurd holds (List.find?_eq_none.1 found n member)
    | some m =>
      have mMember := List.mem_of_find?_eq_some found
      have mHolds := List.find?_some found
      rw [found] at forth
      exact ⟨m, mMember, mHolds, forth,
        back_of_replacement ordered mMember (replaced m mMember mHolds)⟩
  · rintro g o ⟨n, member, verbatim, covers⟩ back
    obtain ⟨exactly, holds⟩ := verbatim_offset verbatim covers
    rw [originalPosition?_of_contains ordered member covers, exactly] at back
    cases Option.some.inj back
    obtain ⟨m, copies, forth⟩ := exists_copiesFirst ordered member verbatim holds
    obtain ⟨mCovers, mBack, _⟩ :=
      back_of_verbatim ordered copies.member copies.verbatim copies.holds
    refine ⟨_, ?_, forth, mBack⟩
    rcases copies.first n member verbatim holds with rfl | later
    · have := ((n.generated.contains_iff g).1 covers).1
      omega
    · have := ((m.generated.contains_iff _).1 mCovers).2
      have := ((n.generated.contains_iff g).1 covers).1
      omega

end TypedSvelte.SourceMap

namespace TypedSvelte.Draft

/-- The map of every draft, whatever source spans were copied and replaced in whatever order, leads
forth and back to the same places. -/
theorem draft_round_trips (source : String) (pieces : List Piece) :
    (ofPieces source pieces).sourceMap.RoundTrips :=
  SourceMap.roundTrips_of_ordered (sound_ofPieces source pieces).ordered

end TypedSvelte.Draft
