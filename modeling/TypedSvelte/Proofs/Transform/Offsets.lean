import TypedSvelte.Proofs.Component.Refusals
import TypedSvelte.Proofs.Component.Replacements
import TypedSvelte.Proofs.Kit.LedgerPlaces
import TypedSvelte.Proofs.Position.Layout

/-!
# Offsets that a transformation tells

Components answer through a source map and special files through a ledger, and errors come from
four readers that count from different places. All the same, what is told of the file lies in the
file, and what is told of the code lies in the code; the ends of both are included.
-/
namespace TypedSvelte

variable {path : FilePath} {source : String} {places : KitPaths} {file : Transformed}

namespace Component

open Markup

/-- A mapping of a module stands for a part of the component. What is copied stands there, and what
is replaced is the tag of a script. -/
theorem Parts.Reads.original_fits {parts : Parts} (reads : parts.Reads source) {m : Mapping}
    (member : m ∈ (Draft.ofPieces source (parts.pieces source)).mappings.toList) :
    m.original.Fits source := by
  rw [Draft.mappings_ofPieces] at member
  obtain ⟨piece, inModule, isMapped⟩ := Draft.original_of_laid member
  have tags {block : ScriptBlock} (here : parts.moduleBlock = some block ∨
      parts.instanceBlock = some block) :
      block.script.openTag.Fits source ∧ block.script.closeTag.Fits source := by
    have inDocument : block.script ∈ (parse source).document.scripts := by
      rcases here with here | here
      · exact List.mem_append_left _ (Option.mem_toList.2 (reads.moduleScript here))
      · exact List.mem_append_right _ (Option.mem_toList.2 (reads.instanceScript here))
    have placed := (document_placed source).scripts _ inDocument
    exact ⟨placed.openTag.fits, placed.closeTag.fits⟩
  cases piece with
  | fresh text => cases (Piece.mapped?_fresh text).symm.trans isMapped
  | copied span =>
    rw [Piece.mapped?_copied] at isMapped
    split at isMapped
    · cases isMapped
    · rename_i filled
      cases isMapped
      exact .of_slice? (slice?_of_text_ne filled)
  | replaced span text =>
    have same : span = m.original := by
      unfold Piece.mapped? at isMapped
      split at isMapped
      · cases isMapped
      · exact Option.some.inj isMapped
    rw [← same]
    cases replaces_of_mem inModule with
    | moduleEnd here => exact (tags (.inl here)).2
    | header here => exact (tags (.inr here)).1
    | instanceEnd here => exact (tags (.inr here)).2

end Component

open Component Kit

theorem transformFile_cases (made : transformFile path source places = .ok (some file)) :
    (∃ t, transpile source = .ok t ∧ file = .component t) ∨
      ∃ out, augment path source places = .ok (some out) ∧ file = .special out := by
  unfold transformFile at made
  split at made
  · cases done : transpile source with
    | error e =>
      rw [done] at made
      cases made
    | ok t =>
      rw [done] at made
      cases made
      exact .inl ⟨t, rfl, rfl⟩
  · cases done : augment path source places with
    | error e =>
      rw [done] at made
      cases made
    | ok out? =>
      rw [done] at made
      cases out? with
      | none => cases made
      | some out =>
        cases made
        exact .inr ⟨out, rfl, rfl⟩

/-- An offset of the file, or its end, leads to an offset of the code, or to its end. -/
theorem generated_le (made : transformFile path source places = .ok (some file))
    {offset generated : Nat} (inside : offset ≤ source.utf8ByteSize)
    (answered : file.toGenerated? offset = some generated) :
    generated ≤ file.code.utf8ByteSize := by
  rcases transformFile_cases made with ⟨t, done, rfl⟩ | ⟨out, done, rfl⟩
  · obtain ⟨parts, reads, code, map, _⟩ := transpile_eq_ok done
    have sound := Draft.sound_ofPieces source (parts.pieces source)
    change t.sourceMap.generatedPosition? offset = some generated at answered
    change generated ≤ t.code.utf8ByteSize
    rw [map] at answered
    rw [code]
    exact SourceMap.generatedPosition?_le
      (fun m member => ⟨Nat.le_of_lt (sound.ordered.nonempty m member), sound.inside m member⟩)
      answered
  · obtain ⟨_, _, assembled⟩ := assembled_of_augment done
    cases answered
    change out.ledger.toGenerated offset ≤ out.text.utf8ByteSize
    rw [assembled.size]
    exact Nat.le_trans (out.ledger.toGenerated_le offset) (Nat.add_le_add_right inside _)

/-- An offset of the code, or its end, leads to an offset of the file, or to its end. -/
theorem original_le (made : transformFile path source places = .ok (some file))
    {offset : Nat} (inside : offset ≤ file.code.utf8ByteSize) :
    (file.toOriginal offset).offset ≤ source.utf8ByteSize := by
  rcases transformFile_cases made with ⟨t, done, rfl⟩ | ⟨out, done, rfl⟩
  · obtain ⟨parts, reads, _, map, _⟩ := transpile_eq_ok done
    change (t.sourceMap.toOriginal offset).offset ≤ _
    rw [map]
    exact SourceMap.offset_toOriginal_le
      (fun m member => have fits := reads.original_fits member; ⟨fits.ordered, fits.stop.le⟩) offset
  · obtain ⟨increasing, positions, assembled⟩ := assembled_of_augment done
    change (out.ledger.toOriginal offset).offset ≤ _
    change offset ≤ out.text.utf8ByteSize at inside
    rw [assembled.size, Ledger.inserted_eq_lengths] at inside
    rw [Ledger.toOriginal_eq_backward increasing]
    exact Ledger.offset_backward_le positions inside

/-- All of a special file stands in its code, and it is found again there. -/
theorem original_of_generated {out : Augmented}
    (made : augment path source places = .ok (some out)) (offset : Nat) :
    out.ledger.toOriginal (out.ledger.toGenerated offset) = .exactly offset := by
  rw [Ledger.toOriginal_eq_backward (assembled_of_augment made).1, Ledger.toGenerated_eq_forward]
  exact Ledger.backward_forward 0 offset _

/-- A file that is refused is at fault within its text, or at the end of it. -/
theorem transformFile_fails (path : FilePath) (source : String) (places : KitPaths) :
    FailsWith (fun reason => ∀ error, reason = .refused error →
        ∀ offset ∈ error.offset?, offset ≤ source.utf8ByteSize)
      (transformFile path source places) := by
  unfold transformFile
  split
  · refine FailsWith.map (.mapError fun error refused => ?_) _
    rintro _ ⟨⟩ offset told
    exact (transpile_fails source error refused).le told
  · exact (augment_fails path source places).map _

end TypedSvelte
