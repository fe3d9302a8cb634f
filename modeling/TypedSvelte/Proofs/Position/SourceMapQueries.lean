import TypedSvelte.Position.SourceMap
import TypedSvelte.Proofs.Position.Spans

/-!
# Queries of a source map

A source map looks an offset up by the last mapping that starts at or before it, and anchors
synthetic text at the last mapping that ends at or before it. Both searches stop early. They find
what a scan of all mappings finds because of the order of the generated spans (`Ordered`).
-/
namespace TypedSvelte.SourceMap

/-- Generated spans cover something, and each ends before the next one begins. -/
structure Ordered (mappings : List Mapping) : Prop where
  nonempty : ∀ m ∈ mappings, m.generated.start < m.generated.stop
  apart : mappings.Pairwise fun a b => a.generated.stop ≤ b.generated.start

theorem Ordered.nil : Ordered [] := ⟨fun _ member => absurd member List.not_mem_nil, .nil⟩

theorem Ordered.tail {m : Mapping} {rest : List Mapping} (ordered : Ordered (m :: rest)) :
    Ordered rest :=
  ⟨fun other member => ordered.nonempty other (List.mem_cons_of_mem m member),
    (List.pairwise_cons.1 ordered.apart).2⟩

private theorem Ordered.stop_le_start {m : Mapping} {rest : List Mapping} (ordered : Ordered (m :: rest)) :
    ∀ later ∈ rest, m.generated.stop ≤ later.generated.start :=
  (List.pairwise_cons.1 ordered.apart).1

private theorem Ordered.head_lt {m : Mapping} {rest : List Mapping} (ordered : Ordered (m :: rest)) :
    m.generated.start < m.generated.stop :=
  ordered.nonempty m List.mem_cons_self

/-- The search stops behind all mappings that start at or before an offset, not only behind the first
ones. -/
theorem Ordered.started_eq_filter {mappings : List Mapping} (ordered : Ordered mappings) (g : Nat) :
    mappings.takeWhile (·.generated.start ≤ g) = mappings.filter (·.generated.start ≤ g) := by
  apply takeWhile_eq_filter
  refine ordered.apart.imp_of_mem ?_
  intro a b aMember _ apart started
  have nonempty := ordered.nonempty a aMember
  simp only [decide_eq_true_eq] at started ⊢
  omega

private theorem takeWhile_start_eq_nil {mappings : List Mapping} {g : Nat}
    (later : ∀ m ∈ mappings, g < m.generated.start) :
    mappings.takeWhile (·.generated.start ≤ g) = [] := by
  cases mappings with
  | nil => rfl
  | cons m rest =>
    apply List.takeWhile_cons_of_neg
    have := later m List.mem_cons_self
    simp only [decide_eq_true_eq]
    omega

theorem find?_contains_eq_none {mappings : List Mapping} {g : Nat}
    (later : ∀ m ∈ mappings, g < m.generated.start) :
    mappings.find? (·.generated.contains g) = none := by
  apply List.find?_eq_none.2
  intro m member holds
  have range := (m.generated.contains_iff g).1 holds
  have := later m member
  omega

/-- The search finds the mapping that a scan of all mappings finds. -/
theorem covering?_eq_find? {mappings : List Mapping} (ordered : Ordered mappings) (g : Nat) :
    (SourceMap.mk mappings).covering? g = mappings.find? (·.generated.contains g) := by
  unfold covering?
  induction mappings with
  | nil => rfl
  | cons m rest ih =>
    have nonempty := ordered.head_lt
    have later := ordered.stop_le_start
    by_cases started : m.generated.start ≤ g
    · have prefixed : (m :: rest).takeWhile (·.generated.start ≤ g) =
          m :: rest.takeWhile (·.generated.start ≤ g) :=
        List.takeWhile_cons_of_pos (by simpa using started)
      by_cases ended : m.generated.stop ≤ g
      · have passed : m.generated.contains g = false := by
          rw [Bool.eq_false_iff]
          intro holds
          have range := (m.generated.contains_iff g).1 holds
          omega
        simp only [prefixed, List.getLast?_cons, List.find?_cons, passed, ← ih ordered.tail]
        cases (rest.takeWhile (·.generated.start ≤ g)).getLast? with
        | none => simp [Option.filter, passed]
        | some last => rfl
      · have holds : m.generated.contains g = true := (m.generated.contains_iff g).2 (by omega)
        have stops : rest.takeWhile (·.generated.start ≤ g) = [] := by
          apply takeWhile_start_eq_nil
          intro other member
          have := later other member
          omega
        simp [prefixed, stops, holds, Option.filter]
    · have before : ∀ other ∈ m :: rest, g < other.generated.start := by
        intro other member
        rcases List.mem_cons.1 member with rfl | inRest
        · omega
        · have := later other inRest
          omega
      rw [find?_contains_eq_none before]
      simp only [takeWhile_start_eq_nil before]
      rfl

private theorem contains_of_find? {mappings : List Mapping} {g : Nat} {m : Mapping}
    (found : mappings.find? (·.generated.contains g) = some m) : m.generated.contains g = true := by
  have holds := List.find?_some found
  exact holds

theorem covering?_eq_some_iff {mappings : List Mapping} (ordered : Ordered mappings) (g : Nat)
    (m : Mapping) : (SourceMap.mk mappings).covering? g = some m ↔
      m ∈ mappings ∧ m.generated.contains g = true := by
  rw [covering?_eq_find? ordered]
  constructor
  · intro found
    exact ⟨List.mem_of_find?_eq_some found, contains_of_find? found⟩
  · rintro ⟨member, holds⟩
    cases found : mappings.find? (·.generated.contains g) with
    | none => exact absurd holds (List.find?_eq_none.1 found m member)
    | some other =>
      have same := eq_of_contains Mapping.generated ordered.apart member holds
        (List.mem_of_find?_eq_some found) (contains_of_find? found)
      rw [same]

/-- An answer is exact where a mapping of equal lengths contains the offset. -/
theorem toOriginal_eq_exactly_iff {mappings : List Mapping} (ordered : Ordered mappings)
    (g o : Nat) : (SourceMap.mk mappings).toOriginal g = .exactly o ↔
      ∃ m ∈ mappings, m.generated.contains g = true ∧ m.isVerbatim = true ∧
        m.original.start + (g - m.generated.start) = o := by
  unfold toOriginal
  constructor
  · intro answer
    cases found : (SourceMap.mk mappings).covering? g with
    | none => simp [found, OriginalPosition.anchored, OriginalPosition.exactly] at answer
    | some m =>
      obtain ⟨member, holds⟩ := (covering?_eq_some_iff ordered g m).1 found
      by_cases verbatim : m.isVerbatim = true
      · simp only [found, verbatim, if_true] at answer
        exact ⟨m, member, holds, verbatim, congrArg OriginalPosition.offset answer⟩
      · simp [found, verbatim, OriginalPosition.anchored, OriginalPosition.exactly] at answer
  · rintro ⟨m, member, holds, verbatim, rfl⟩
    rw [(covering?_eq_some_iff ordered g m).2 ⟨member, holds⟩]
    simp only [verbatim, if_true]

/-- The mapping that ends last among those that end at or before an offset. -/
structure EndsLast (mappings : List Mapping) (g : Nat) (m : Mapping) : Prop where
  member : m ∈ mappings
  ended : m.generated.stop ≤ g
  greatest : ∀ other ∈ mappings, other.generated.stop ≤ g →
    other.generated.stop ≤ m.generated.stop

/-- The search for an anchor finds the mapping that ends last, if any has ended. -/
theorem last_ended_cases {mappings : List Mapping} (ordered : Ordered mappings) (g : Nat) :
    (∃ m, (mappings.takeWhile (·.generated.stop ≤ g)).getLast? = some m ∧
        EndsLast mappings g m) ∨
      (mappings.takeWhile (·.generated.stop ≤ g)).getLast? = none ∧
        ∀ m ∈ mappings, g < m.generated.stop := by
  induction mappings with
  | nil => exact Or.inr ⟨rfl, fun m member => absurd member List.not_mem_nil⟩
  | cons m rest ih =>
    have later := ordered.stop_le_start
    by_cases ended : m.generated.stop ≤ g
    · have prefixed : (m :: rest).takeWhile (·.generated.stop ≤ g) =
          m :: rest.takeWhile (·.generated.stop ≤ g) :=
        List.takeWhile_cons_of_pos (by simpa using ended)
      refine Or.inl ?_
      rcases ih ordered.tail with ⟨last, found, isLast⟩ | ⟨found, noneEnded⟩
      · refine ⟨last, by rw [prefixed, List.getLast?_cons, found]; rfl,
          List.mem_cons_of_mem m isLast.member, isLast.ended, ?_⟩
        intro other member otherEnded
        rcases List.mem_cons.1 member with rfl | inRest
        · have := later last isLast.member
          have := ordered.tail.nonempty last isLast.member
          omega
        · exact isLast.greatest other inRest otherEnded
      · refine ⟨m, by rw [prefixed, List.getLast?_cons, found]; rfl, List.mem_cons_self, ended, ?_⟩
        intro other member otherEnded
        rcases List.mem_cons.1 member with rfl | inRest
        · exact Nat.le_refl _
        · have := noneEnded other inRest
          omega
    · refine Or.inr ⟨?_, ?_⟩
      · rw [List.takeWhile_cons_of_neg (by simpa using ended)]
        rfl
      · intro other member
        rcases List.mem_cons.1 member with rfl | inRest
        · omega
        · have := later other inRest
          have := ordered.tail.nonempty other inRest
          omega

/-- What a map answers is what its mappings say, for every generated offset. -/
structure Faithful (map : SourceMap) : Prop where
  /-- A source offset is given as a scan of all mappings would give it. -/
  scan : ∀ g, map.originalPosition? g =
    (map.mappings.find? (·.generated.contains g)).map fun m =>
      m.original.start + min (g - m.generated.start) m.original.size
  /-- It is given exactly where a generated span, and then a single one, contains the offset. -/
  covered : ∀ g, (map.originalPosition? g).isSome = true ↔
    ∃ m ∈ map.mappings, m.generated.contains g = true ∧
      ∀ other ∈ map.mappings, other.generated.contains g = true → other = m
  /-- Elsewhere the text is synthetic and anchored where the mapping that ends last ended. -/
  anchored : ∀ g, (∀ m ∈ map.mappings, m.generated.contains g = false) →
    (∃ m, EndsLast map.mappings g m ∧ map.toOriginal g = .anchored m.original.stop) ∨
      (∀ m ∈ map.mappings, g < m.generated.stop) ∧ map.toOriginal g = .anchored 0

theorem faithful_of_ordered {mappings : List Mapping} (ordered : Ordered mappings) :
    (SourceMap.mk mappings).Faithful := by
  refine ⟨?_, ?_, ?_⟩
  · intro g
    unfold originalPosition?
    rw [covering?_eq_find? ordered]
  · intro g
    unfold originalPosition?
    rw [Option.isSome_map]
    constructor
    · intro answered
      obtain ⟨m, found⟩ := Option.isSome_iff_exists.1 answered
      obtain ⟨member, holds⟩ := (covering?_eq_some_iff ordered g m).1 found
      exact ⟨m, member, holds, fun other otherMember otherHolds =>
        eq_of_contains Mapping.generated ordered.apart member holds otherMember otherHolds⟩
    · rintro ⟨m, member, holds, _⟩
      rw [(covering?_eq_some_iff ordered g m).2 ⟨member, holds⟩]
      rfl
  · intro g uncovered
    have unfound : (SourceMap.mk mappings).covering? g = none := by
      rw [covering?_eq_find? ordered, List.find?_eq_none]
      intro m member
      rw [uncovered m member]
      exact Bool.false_ne_true
    unfold toOriginal
    rw [unfound]
    rcases last_ended_cases ordered g with ⟨m, found, isLast⟩ | ⟨found, noneEnded⟩
    · refine Or.inl ⟨m, isLast, ?_⟩
      simp only [found]
      rfl
    · refine Or.inr ⟨noneEnded, ?_⟩
      simp only [found]
      rfl

/-- The span is in order and ends within the first `size` bytes. -/
def EndsBy (size : Nat) (s : Span) : Prop := s.start ≤ s.stop ∧ s.stop ≤ size

/-- A generated offset that is answered lies in the text that all generated spans lie in. -/
theorem generatedPosition?_le {map : SourceMap} {size : Nat}
    (inside : ∀ m ∈ map.mappings, EndsBy size m.generated) {original generated : Nat}
    (answered : map.generatedPosition? original = some generated) : generated ≤ size := by
  unfold generatedPosition? at answered
  dsimp only at answered
  split at answered
  · rename_i m found
    obtain ⟨member, holds⟩ := List.mem_filter.1 (List.mem_of_find?_eq_some found)
    have verbatim : m.isVerbatim = true := List.find?_some found
    have same : m.generated.size = m.original.size := eq_of_beq verbatim
    obtain ⟨low, high⟩ := (m.original.contains_iff original).1 holds
    obtain ⟨ordered, fits⟩ := inside m member
    cases answered
    simp only [Span.size] at same
    omega
  · obtain ⟨m, first, rfl⟩ := Option.map_eq_some_iff.1 answered
    obtain ⟨ordered, fits⟩ := inside m (List.mem_filter.1 (List.mem_of_head? first)).1
    exact Nat.le_trans ordered fits

/-- A source offset that is answered lies in the text that all source spans lie in. -/
theorem offset_toOriginal_le {map : SourceMap} {size : Nat}
    (inside : ∀ m ∈ map.mappings, EndsBy size m.original) (generated : Nat) :
    (map.toOriginal generated).offset ≤ size := by
  unfold toOriginal
  split
  · rename_i m found
    obtain ⟨last, holds⟩ := Option.filter_eq_some_iff.1 found
    have member : m ∈ map.mappings :=
      (List.takeWhile_prefix _).subset (List.mem_of_getLast? last)
    obtain ⟨ordered, fits⟩ := inside m member
    split
    · rename_i verbatim
      have same : m.generated.size = m.original.size := eq_of_beq verbatim
      obtain ⟨low, high⟩ := (m.generated.contains_iff generated).1 holds
      change m.original.start + (generated - m.generated.start) ≤ size
      simp only [Span.size] at same
      omega
    · exact Nat.le_trans ordered fits
  · cases last : (map.mappings.takeWhile (·.generated.stop ≤ generated)).getLast? with
    | none => exact Nat.zero_le size
    | some m =>
      exact (inside m ((List.takeWhile_prefix _).subset (List.mem_of_getLast? last))).2

end TypedSvelte.SourceMap
