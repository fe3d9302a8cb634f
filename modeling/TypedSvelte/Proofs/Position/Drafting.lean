import Mathlib.Data.List.Induction
import TypedSvelte.Position.Piece
import TypedSvelte.Proofs.Position.SourceMapQueries
import TypedSvelte.Proofs.Text.Bytes

/-!
# Drafts built piece by piece

A piece appends its text (`Piece.emitted`) and adds a mapping unless it is fresh or its text is
empty. `Draft.Sound` is the invariant that every piece preserves. What the mappings leave uncovered
is what was pushed (`unmapped_ofPieces`).
-/
namespace TypedSvelte

def Piece.emitted (source : String) : Piece → String
  | .fresh text => text
  | .copied original => original.text source
  | .replaced _ text => text

def Piece.original? : Piece → Option Span
  | .fresh _ => none
  | .copied original => some original
  | .replaced original _ => some original

/-- The text that a piece appends without a counterpart in the source. -/
def Piece.pushed : Piece → String
  | .fresh text => text
  | _ => ""

namespace Draft

def mapped (d : Draft) (original : Span) (text : String) : Draft :=
  { d with
    code := d.code ++ text
    mappings := d.mappings.push ⟨⟨d.size, d.size + text.utf8ByteSize⟩, original⟩ }

private theorem replace_cases (d : Draft) (original : Span) (text : String) :
    (text = "" ∧ d.replace original text = d) ∨
      text ≠ "" ∧ d.replace original text = d.mapped original text := by
  unfold replace
  by_cases empty : text = ""
  · exact Or.inl ⟨empty, if_pos (by simpa using empty)⟩
  · exact Or.inr ⟨empty, if_neg (by simpa using empty)⟩

/-- A piece either appends fresh text, which may be empty, or it appends a text that it maps. -/
theorem add_cases (d : Draft) (piece : Piece) :
    (piece.emitted d.source = piece.pushed ∧
        d.add piece = { d with code := d.code ++ piece.pushed }) ∨
      ∃ original, piece.original? = some original ∧ piece.pushed = "" ∧
        piece.emitted d.source ≠ "" ∧ d.add piece = d.mapped original (piece.emitted d.source) := by
  have unchanged : ({ d with code := d.code ++ "" } : Draft) = d := by
    rw [String.append_empty]
  cases piece with
  | fresh text => exact Or.inl ⟨rfl, rfl⟩
  | copied original =>
    rcases replace_cases d original (original.text d.source) with ⟨empty, same⟩ | ⟨filled, next⟩
    · exact Or.inl ⟨empty, same.trans unchanged.symm⟩
    · exact Or.inr ⟨original, rfl, rfl, filled, next⟩
  | replaced original text =>
    rcases replace_cases d original text with ⟨empty, same⟩ | ⟨filled, next⟩
    · exact Or.inl ⟨empty, same.trans unchanged.symm⟩
    · exact Or.inr ⟨original, rfl, rfl, filled, next⟩

theorem add_source (d : Draft) (piece : Piece) : (d.add piece).source = d.source := by
  rcases add_cases d piece with ⟨_, next⟩ | ⟨original, _, _, _, next⟩
  · rw [next]
  · rw [next, mapped]

theorem add_code (d : Draft) (piece : Piece) :
    (d.add piece).code = d.code ++ piece.emitted d.source := by
  rcases add_cases d piece with ⟨emitted, next⟩ | ⟨original, _, _, _, next⟩
  · rw [next, emitted]
  · rw [next, mapped]

/-- The mappings of a draft are in order and lie inside the text generated so far. -/
structure Sound (d : Draft) : Prop where
  ordered : SourceMap.Ordered d.mappings.toList
  inside : ∀ m ∈ d.mappings.toList, m.generated.stop ≤ d.size

theorem sound_start (source : String) : (start source).Sound :=
  ⟨SourceMap.Ordered.nil, fun _ member => absurd member List.not_mem_nil⟩

/-- A mapped text begins where the generated text ends, behind all mappings. -/
theorem sound_mapped {d : Draft} (sound : d.Sound) {original : Span} {text : String}
    (filled : text ≠ "") : (d.mapped original text).Sound := by
  have positive : 0 < text.utf8ByteSize := by
    apply Nat.pos_of_ne_zero
    simpa using filled
  have size : (d.mapped original text).size = d.size + text.utf8ByteSize := by
    simp [mapped, Draft.size]
  have mappings : (d.mapped original text).mappings.toList =
      d.mappings.toList ++ [⟨⟨d.size, d.size + text.utf8ByteSize⟩, original⟩] := by
    simp [mapped]
  refine ⟨⟨?_, ?_⟩, ?_⟩
  · intro m member
    rw [mappings] at member
    rcases List.mem_append.1 member with old | new
    · exact sound.ordered.nonempty m old
    · cases List.mem_singleton.1 new
      change d.size < d.size + text.utf8ByteSize
      omega
  · rw [mappings]
    refine List.pairwise_append.2 ⟨sound.ordered.apart, List.pairwise_singleton _ _, ?_⟩
    intro m old other new
    cases List.mem_singleton.1 new
    exact sound.inside m old
  · intro m member
    rw [mappings] at member
    rw [size]
    rcases List.mem_append.1 member with old | new
    · have := sound.inside m old
      omega
    · cases List.mem_singleton.1 new
      exact Nat.le_refl _

private theorem sound_add {d : Draft} (sound : d.Sound) (piece : Piece) : (d.add piece).Sound := by
  rcases add_cases d piece with ⟨_, next⟩ | ⟨original, _, _, filled, next⟩
  · rw [next]
    refine ⟨sound.ordered, fun m member => Nat.le_trans (sound.inside m member) ?_⟩
    simp [Draft.size]
  · rw [next]
    exact sound_mapped sound filled

theorem ofPieces_snoc (source : String) (before : List Piece) (piece : Piece) :
    ofPieces source (before ++ [piece]) = (ofPieces source before).add piece := by
  rw [ofPieces_append]
  rfl

/-- Every sequence of pieces leaves a sound draft. -/
theorem sound_ofPieces (source : String) (pieces : List Piece) :
    (ofPieces source pieces).Sound := by
  induction pieces using List.reverseRecOn with
  | nil => exact sound_start source
  | append_singleton before piece ih =>
    rw [ofPieces_snoc]
    exact sound_add ih piece

theorem source_ofPieces (source : String) (pieces : List Piece) :
    (ofPieces source pieces).source = source := by
  induction pieces using List.reverseRecOn with
  | nil => rfl
  | append_singleton before piece ih => rw [ofPieces_snoc, add_source, ih]

/-- The bytes of the generated text outside of all mapped spans. -/
def unmapped (d : Draft) : List UInt8 :=
  bytesOutside (d.mappings.toList.map (·.generated)) 0 (bytes d.code)

private theorem unmapped_add {d : Draft} (sound : d.Sound) (piece : Piece) :
    (d.add piece).unmapped = d.unmapped ++ bytes piece.pushed := by
  rcases add_cases d piece with ⟨_, next⟩ | ⟨original, _, pushed, _, next⟩
  · rw [next]
    unfold unmapped
    rw [bytes_append, bytesOutside_append]
    congr 1
    apply bytesOutside_of_apart
    intro s member
    obtain ⟨m, old, rfl⟩ := List.mem_map.1 member
    have inside := sound.inside m old
    rw [length_bytes, Nat.zero_add]
    exact Or.inl inside
  · have spans : (d.add piece).mappings.toList.map (·.generated) =
        d.mappings.toList.map (·.generated) ++
          [⟨d.size, d.size + (piece.emitted d.source).utf8ByteSize⟩] := by
      simp [next, mapped]
    have kept : bytesOutside ((d.add piece).mappings.toList.map (·.generated)) 0 (bytes d.code) =
        d.unmapped := by
      apply bytesOutside_congr
      intro i _ high
      have behind : Span.contains ⟨d.size, d.size + (piece.emitted d.source).utf8ByteSize⟩ i =
          false := by
        rw [Bool.eq_false_iff]
        intro holds
        have range := (Span.contains_iff _ i).1 holds
        rw [length_bytes] at high
        change d.code.utf8ByteSize ≤ i ∧ _ at range
        omega
      rw [spans, List.any_append, List.any_cons, behind]
      simp
    have dropped : bytesOutside ((d.add piece).mappings.toList.map (·.generated))
        (0 + (bytes d.code).length) (bytes (piece.emitted d.source)) = [] := by
      rw [spans]
      apply bytesOutside_of_covered (List.mem_append_right _ List.mem_cons_self)
      · rw [length_bytes, Nat.zero_add]
        exact Nat.le_refl _
      · rw [length_bytes, length_bytes, Nat.zero_add]
        exact Nat.le_refl _
    have code := add_code d piece
    unfold unmapped at kept ⊢
    rw [code, bytes_append, bytesOutside_append, kept, dropped, pushed, bytes_empty]

/-- Outside of all mapped spans stands what was pushed, in order. -/
theorem unmapped_ofPieces (source : String) (pieces : List Piece) :
    (ofPieces source pieces).unmapped = pieces.flatMap fun piece => bytes piece.pushed := by
  induction pieces using List.reverseRecOn with
  | nil => rfl
  | append_singleton before piece ih =>
    rw [ofPieces_snoc, unmapped_add (sound_ofPieces source before), ih, List.flatMap_append,
      List.flatMap_singleton]

end Draft

end TypedSvelte
