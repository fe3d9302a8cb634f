import Mathlib.Algebra.GroupWithZero.Nat
import TypedSvelte.Proofs.Position.MappingOrigin

/-!
# Mappings in closed form

The mappings of a finished draft are those of its pieces one after another, each at the sum of the
sizes before it (`Draft.mappings_ofPieces`). Their source spans do not depend on where the pieces
are placed (`Draft.originals_laid`), so which source spans a part of a draft maps can be read off
the pieces of that part.
-/
namespace TypedSvelte

/-- The source span that a piece leaves a mapping of: none if it is fresh or emits nothing. -/
def Piece.mapped? (source : String) (piece : Piece) : Option Span :=
  if piece.emitted source = "" then none else piece.original?

namespace Piece

variable {source : String}

@[simp]
theorem mapped?_fresh (text : String) : (Piece.fresh text).mapped? source = none := by
  simp [mapped?, original?]

theorem mapped?_copied (span : Span) :
    (Piece.copied span).mapped? source = if span.text source = "" then none else some span := rfl

/-- A replacement that emits something is mapped. -/
theorem mapped?_replaced {span : Span} {text : String} (filled : text ≠ "") :
    (Piece.replaced span text).mapped? source = some span := if_neg filled

end Piece

namespace Draft

def emittedSize (source : String) (pieces : List Piece) : Nat :=
  (pieces.map fun piece => (piece.emitted source).utf8ByteSize).sum

/-- The mappings of pieces whose text begins at byte `offset`. -/
def laid (source : String) (offset : Nat) : List Piece → List Mapping
  | [] => []
  | piece :: rest =>
    let stop := offset + (piece.emitted source).utf8ByteSize
    (piece.mapped? source).toList.map (Mapping.mk ⟨offset, stop⟩) ++ laid source stop rest

variable {source : String}

private theorem laid_append (offset : Nat) (first second : List Piece) :
    laid source offset (first ++ second) =
      laid source offset first ++ laid source (offset + emittedSize source first) second := by
  induction first generalizing offset with
  | nil => rfl
  | cons piece rest ih =>
    simp only [List.cons_append, laid, ih, emittedSize, List.map_cons, List.sum_cons,
      List.append_assoc, Nat.add_assoc]

/-- A piece that leaves a mapping parts the mappings before it from those after it. -/
theorem exists_laid_split (offset : Nat) (first second : List Piece) {piece : Piece}
    {original : Span} (isMapped : piece.mapped? source = some original) :
    ∃ generated stop, laid source offset (first ++ piece :: second) =
      laid source offset first ++ ⟨generated, original⟩ :: laid source stop second := by
  let start := offset + emittedSize source first
  let stop := start + (piece.emitted source).utf8ByteSize
  refine ⟨⟨start, stop⟩, stop, ?_⟩
  rw [laid_append, laid, isMapped]
  rfl

/-- A piece adds the mapping that it leaves where the text ends so far. -/
theorem mappings_add (d : Draft) (piece : Piece) :
    (d.add piece).mappings.toList = d.mappings.toList ++ (piece.mapped? d.source).toList.map
      (Mapping.mk ⟨d.size, d.size + (piece.emitted d.source).utf8ByteSize⟩) := by
  rcases add_cases d piece with ⟨emitted, next⟩ | ⟨original, stands, _, filled, next⟩
  · have unmapped : piece.mapped? d.source = none := by
      cases piece with
      | fresh text => exact Piece.mapped?_fresh text
      | copied span => exact if_pos emitted
      | replaced span text => exact if_pos emitted
    rw [next, unmapped]
    exact (List.append_nil _).symm
  · have isMapped : piece.mapped? d.source = some original := (if_neg filled).trans stands
    rw [next, isMapped, mapped, Array.toList_push]
    rfl

private theorem size_add (d : Draft) (piece : Piece) :
    (d.add piece).size = d.size + (piece.emitted d.source).utf8ByteSize := by
  rw [size, add_code, String.utf8ByteSize_append]
  rfl

def emittedChars (source : String) (pieces : List Piece) : List Char :=
  pieces.flatMap fun piece => (piece.emitted source).toList

@[simp]
theorem emittedChars_nil : emittedChars source [] = [] := rfl

@[simp]
theorem emittedChars_cons (piece : Piece) (rest : List Piece) :
    emittedChars source (piece :: rest) =
      (piece.emitted source).toList ++ emittedChars source rest := rfl

@[simp]
theorem emittedChars_append (first second : List Piece) :
    emittedChars source (first ++ second) =
      emittedChars source first ++ emittedChars source second :=
  List.flatMap_append

theorem emittedSize_append (first second : List Piece) :
    emittedSize source (first ++ second) =
      emittedSize source first + emittedSize source second := by
  rw [emittedSize, List.map_append, List.sum_append]
  rfl

/-- The size of pieces is that of their text. -/
theorem emittedSize_eq (source : String) (pieces : List Piece) :
    emittedSize source pieces = byteSize (emittedChars source pieces) := by
  induction pieces with
  | nil => rfl
  | cons piece rest ih =>
    rw [emittedChars_cons, byteSize_append, byteSize_toList, ← ih]
    rfl

/-- Text that replaces something is mapped to what it replaces. -/
theorem mem_laid_replaced (source : String) (first last : List Piece) (span : Span) {text : String}
    (filled : text ≠ "") :
    ⟨⟨byteSize (emittedChars source first),
      byteSize (emittedChars source first) + text.utf8ByteSize⟩, span⟩ ∈
        laid source 0 (first ++ .replaced span text :: last) := by
  rw [laid_append, laid, Piece.mapped?_replaced filled, emittedSize_eq,
    Nat.zero_add]
  exact List.mem_append_right _ (List.mem_append_left _ (List.mem_singleton.2 rfl))

/-- Pieces append their text. -/
theorem toList_code_foldl_add (d : Draft) (pieces : List Piece) :
    (pieces.foldl add d).code.toList = d.code.toList ++ emittedChars d.source pieces := by
  induction pieces generalizing d with
  | nil => exact (List.append_nil _).symm
  | cons piece rest ih =>
    rw [List.foldl_cons, ih, add_code, add_source, String.toList_append, List.append_assoc,
      emittedChars_cons]

theorem toList_code_ofPieces (source : String) (pieces : List Piece) :
    (ofPieces source pieces).code.toList = emittedChars source pieces :=
  toList_code_foldl_add (start source) pieces

theorem mappings_foldl_add (d : Draft) (pieces : List Piece) :
    (pieces.foldl add d).mappings.toList = d.mappings.toList ++ laid d.source d.size pieces := by
  induction pieces generalizing d with
  | nil => exact (List.append_nil _).symm
  | cons piece rest ih =>
    rw [List.foldl_cons, ih, mappings_add, add_source, size_add, List.append_assoc]
    rfl

/-- The mappings of a finished draft are laid from the beginning of the text. -/
theorem mappings_ofPieces (source : String) (pieces : List Piece) :
    (ofPieces source pieces).mappings.toList = laid source 0 pieces :=
  mappings_foldl_add (start source) pieces

/-- The source spans of mappings are those that the pieces leave mappings of. -/
theorem originals_laid (offset : Nat) (pieces : List Piece) :
    (laid source offset pieces).map (·.original) = pieces.filterMap (·.mapped? source) := by
  induction pieces generalizing offset with
  | nil => rfl
  | cons piece rest ih =>
    rw [laid, List.map_append, ih, List.filterMap_cons]
    cases piece.mapped? source with
    | none => rfl
    | some span => rfl

/-- The source span of a laid mapping is mapped by one of the pieces. -/
theorem original_of_laid {offset : Nat} {pieces : List Piece} {m : Mapping}
    (member : m ∈ laid source offset pieces) :
    ∃ piece ∈ pieces, piece.mapped? source = some m.original := by
  apply List.mem_filterMap.1
  rw [← originals_laid offset pieces]
  exact List.mem_map_of_mem member

/-- A laid mapping holds what its piece emits. -/
theorem slice?_of_laid (d : Draft) {pieces : List Piece} {m : Mapping}
    (member : m ∈ laid d.source d.size pieces) :
    ∃ piece ∈ pieces, piece.mapped? d.source = some m.original ∧
      slice? (pieces.foldl add d).code m.generated.start m.generated.stop =
        some (piece.emitted d.source) := by
  induction pieces generalizing d with
  | nil => cases member
  | cons piece rest ih =>
    rcases List.mem_append.1 member with here | later
    · obtain ⟨original, isMapped, rfl⟩ := List.mem_map.1 here
      obtain ⟨text, _, code, _⟩ := foldl_add_extends (d.add piece) rest
      refine ⟨piece, .head _, Option.mem_toList.1 isMapped, (slice?_eq_some_iff _ _ _ _).2 ?_⟩
      refine ⟨d.code, text, ?_, rfl, rfl⟩
      rw [List.foldl_cons, code, add_code]
    · rw [← size_add, ← add_source d piece] at later
      obtain ⟨other, inRest, found⟩ := ih (d.add piece) later
      rw [add_source] at found
      exact ⟨other, .tail _ inRest, found⟩

end Draft

end TypedSvelte
