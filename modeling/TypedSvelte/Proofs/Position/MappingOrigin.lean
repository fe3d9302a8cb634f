import TypedSvelte.Proofs.Position.Drafting

/-!
# The piece a mapping comes from

Every mapping of a finished draft was added by one piece (`exists_makes`), every piece that stands
for a source span and emits something adds one (`exists_mapping`), and the mapped span of the
output holds what that piece emitted (`slice?_of_makes`).
-/
namespace TypedSvelte.Draft

/-- `Makes source pieces piece m`: when the draft of `pieces` comes to `piece`, this adds `m` to the
mappings. -/
def Makes (source : String) (pieces : List Piece) (piece : Piece) (m : Mapping) : Prop :=
  ∃ before after, pieces = before ++ piece :: after ∧
    (ofPieces source (before ++ [piece])).mappings = (ofPieces source before).mappings.push m

variable {source : String} {pieces : List Piece} {piece : Piece} {m : Mapping}

/-- Later pieces only append to the text and to the mappings. -/
theorem foldl_add_extends (d : Draft) (pieces : List Piece) :
    ∃ text mappings, (pieces.foldl add d).code = d.code ++ text ∧
      (pieces.foldl add d).mappings.toList = d.mappings.toList ++ mappings := by
  induction pieces generalizing d with
  | nil => exact ⟨"", [], String.append_empty.symm, (List.append_nil _).symm⟩
  | cons piece rest ih =>
    obtain ⟨text, mappings, code, maps⟩ := ih (d.add piece)
    rw [List.foldl_cons, code, maps]
    rcases add_cases d piece with ⟨_, next⟩ | ⟨original, _, _, _, next⟩
    · exact ⟨piece.pushed ++ text, mappings, by rw [next, String.append_assoc], by rw [next]⟩
    · refine ⟨piece.emitted d.source ++ text,
        ⟨⟨d.size, d.size + (piece.emitted d.source).utf8ByteSize⟩, original⟩ :: mappings, ?_, ?_⟩
      · rw [next, mapped, String.append_assoc]
      · rw [next, mapped, Array.toList_push, List.append_assoc, List.singleton_append]

private theorem ofPieces_split (source : String) (before : List Piece) (piece : Piece)
    (after : List Piece) : ofPieces source (before ++ piece :: after) =
      after.foldl add ((ofPieces source before).add piece) := by
  rw [ofPieces_append]
  rfl

theorem mem_of_makes (makes : Makes source pieces piece m) :
    m ∈ (ofPieces source pieces).mappings.toList := by
  obtain ⟨before, after, rfl, added⟩ := makes
  obtain ⟨_, mappings, _, maps⟩ := foldl_add_extends ((ofPieces source before).add piece) after
  rw [ofPieces_split, maps, ← ofPieces_snoc, added]
  simp

theorem piece_mem_of_makes (makes : Makes source pieces piece m) : piece ∈ pieces := by
  obtain ⟨before, after, rfl, _⟩ := makes
  exact List.mem_append_right before List.mem_cons_self

/-- The mapping that a piece adds stands for the span of the piece, and the mapped output is what
the piece emits. -/
theorem slice?_of_makes (makes : Makes source pieces piece m) :
    piece.original? = some m.original ∧ piece.emitted source ≠ "" ∧
      slice? (ofPieces source pieces).code m.generated.start m.generated.stop =
        some (piece.emitted source) := by
  obtain ⟨before, after, rfl, added⟩ := makes
  rw [ofPieces_snoc] at added
  obtain ⟨text, _, code, _⟩ := foldl_add_extends ((ofPieces source before).add piece) after
  rcases add_cases (ofPieces source before) piece with
    ⟨_, next⟩ | ⟨original, stands, _, filled, next⟩
  · rw [next] at added
    have size := congrArg Array.size added
    rw [Array.size_push] at size
    exact absurd size (Nat.ne_of_lt (Nat.lt_succ_self _))
  · rw [source_ofPieces] at filled next
    rw [next, mapped] at added
    obtain ⟨rfl, _⟩ := Array.push_eq_push.1 added
    refine ⟨stands, filled, ?_⟩
    apply (slice?_eq_some_iff _ _ _ _).2
    refine ⟨(ofPieces source before).code, text, ?_, rfl, rfl⟩
    rw [ofPieces_split, code, add_code, source_ofPieces]

/-- A piece that stands for a source span and emits something adds a mapping. -/
theorem exists_mapping {original : Span} (member : piece ∈ pieces)
    (stands : piece.original? = some original) (filled : piece.emitted source ≠ "") :
    ∃ m, Makes source pieces piece m := by
  obtain ⟨before, after, rfl⟩ := List.append_of_mem member
  rcases add_cases (ofPieces source before) piece with ⟨emitted, _⟩ | ⟨span, _, _, _, next⟩
  · rw [source_ofPieces] at emitted
    cases piece with
    | fresh text => cases stands
    | copied span => exact absurd emitted filled
    | replaced span text => exact absurd emitted filled
  · let d := ofPieces source before
    refine ⟨⟨⟨d.size, d.size + (piece.emitted d.source).utf8ByteSize⟩, span⟩, before, after, rfl, ?_⟩
    rw [ofPieces_snoc, next, mapped]

private theorem makes_snoc (last : Piece) (makes : Makes source pieces piece m) :
    Makes source (pieces ++ [last]) piece m := by
  obtain ⟨before, after, rfl, added⟩ := makes
  exact ⟨before, after ++ [last], by rw [List.append_assoc, List.cons_append], added⟩

/-- Every mapping of a finished draft was added by a piece. -/
theorem exists_makes (member : m ∈ (ofPieces source pieces).mappings.toList) :
    ∃ piece, Makes source pieces piece m := by
  induction pieces using List.reverseRecOn with
  | nil => exact absurd member List.not_mem_nil
  | append_singleton before last ih =>
    have earlier (old : m ∈ (ofPieces source before).mappings.toList) :
        ∃ piece, Makes source (before ++ [last]) piece m := by
      obtain ⟨piece, makes⟩ := ih old
      exact ⟨piece, makes_snoc last makes⟩
    rw [ofPieces_snoc] at member
    rcases add_cases (ofPieces source before) last with ⟨_, next⟩ | ⟨original, _, _, _, next⟩
    · rw [next] at member
      exact earlier member
    · rw [next, mapped, Array.toList_push] at member
      rcases List.mem_append.1 member with old | new
      · exact earlier old
      · cases List.mem_singleton.1 new
        refine ⟨last, before, [], rfl, ?_⟩
        rw [ofPieces_snoc, next, mapped]

/-- A copied mapping holds the same text on both sides. -/
theorem copy_of_makes {span : Span} (makes : Makes source pieces (.copied span) m) :
    m.original = span ∧ ∃ text, text ≠ "" ∧
      slice? (ofPieces source pieces).code m.generated.start m.generated.stop = some text ∧
      slice? source m.original.start m.original.stop = some text := by
  obtain ⟨stands, filled, generated⟩ := slice?_of_makes makes
  cases Option.some.inj stands
  exact ⟨rfl, _, filled, generated, slice?_of_text_ne filled⟩

/-- The mapped span is as long as what the piece emits. -/
theorem size_of_makes (makes : Makes source pieces piece m) :
    m.generated.size = (piece.emitted source).utf8ByteSize := by
  obtain ⟨_, _, generated⟩ := slice?_of_makes makes
  rw [Span.size, stop_of_slice? generated, Nat.add_sub_cancel_left]

/-- Within a mapped span the output has the bytes that the piece emits. -/
theorem byte_of_makes (makes : Makes source pieces piece m) {g : Nat}
    (holds : m.generated.contains g = true) :
    (bytes (ofPieces source pieces).code)[g]? =
      (bytes (piece.emitted source))[g - m.generated.start]? := by
  obtain ⟨_, _, generated⟩ := slice?_of_makes makes
  obtain ⟨low, high⟩ := (m.generated.contains_iff g).1 holds
  have size := size_of_makes makes
  have inside : g - m.generated.start < (piece.emitted source).utf8ByteSize := by
    rw [← size, Span.size]
    omega
  rw [← byte_of_slice? generated inside, Nat.add_sub_cancel' low]

/-- Within a copied span the output has the bytes of the source. -/
theorem byte_of_copy {span : Span} (makes : Makes source pieces (.copied span) m) {g : Nat}
    (holds : m.generated.contains g = true) :
    (bytes (ofPieces source pieces).code)[g]? =
      (bytes source)[m.original.start + (g - m.generated.start)]? := by
  obtain ⟨stands, filled, _⟩ := slice?_of_makes makes
  cases Option.some.inj stands
  obtain ⟨low, high⟩ := (m.generated.contains_iff g).1 holds
  have size := size_of_makes makes
  rw [byte_of_makes makes holds]
  apply (byte_of_slice? (slice?_of_text_ne filled) _).symm
  change m.generated.size = (m.original.text source).utf8ByteSize at size
  rw [← size, Span.size]
  omega

/-- Every sequence of copies, replacements and pushes leaves mappings in order, copies that hold
what they were copied from, pushed bytes and nothing else outside of the mappings, and a map whose
two searches answer as scans of all mappings would. -/
theorem draft_faithful (source : String) (pieces : List Piece) :
    let draft := ofPieces source pieces
    draft.Sound ∧
      (∀ m, m ∈ draft.mappings.toList ↔ ∃ piece, Makes source pieces piece m) ∧
      (∀ span m, Makes source pieces (.copied span) m →
        m.original = span ∧ ∃ text, text ≠ "" ∧
          slice? draft.code m.generated.start m.generated.stop = some text ∧
          slice? source m.original.start m.original.stop = some text) ∧
      draft.unmapped = (pieces.flatMap fun piece => bytes piece.pushed) ∧
      draft.sourceMap.Faithful := by
  intro draft
  have sound := sound_ofPieces source pieces
  refine ⟨sound, ?_, ?_, unmapped_ofPieces source pieces, ?_⟩
  · intro m
    constructor
    · intro member
      exact exists_makes member
    · rintro ⟨piece, makes⟩
      exact mem_of_makes makes
  · intro span m makes
    exact copy_of_makes makes
  · exact SourceMap.faithful_of_ordered sound.ordered

end TypedSvelte.Draft
