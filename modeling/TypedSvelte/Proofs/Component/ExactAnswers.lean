import TypedSvelte.Proofs.Component.Acceptance
import TypedSvelte.Proofs.Component.Replacements
import TypedSvelte.Proofs.Markup.ScriptFrame
import TypedSvelte.Proofs.Position.MappingOrigin

/-!
# Exact answers about modules

A mapping counts as verbatim when both of its spans have the same length. A copy always has, but so
has a replacement that happens to be as long as what it replaces. Of the replacements of a module
only the header of `render` can be: the separator after a script has two bytes, and no closing tag
has. So exact answers are right exactly for the components whose instance script has an opening tag
of another length than the header.
-/
namespace TypedSvelte.Component

open Markup

namespace Parts

variable {source : String} {parts : Parts}

/-- The separator that ends a script is never as long as the closing tag. -/
theorem Reads.size_closeTag_ne (reads : parts.Reads source) {block : ScriptBlock}
    (here : parts.moduleBlock = some block ∨ parts.instanceBlock = some block) :
    block.script.closeTag.size ≠ ";\n".utf8ByteSize := by
  have separator : ";\n".utf8ByteSize = 2 := by decide
  rcases (reads.stands here).size_closeTag with absent | long
  · omega
  · omega

/-- Among the mappings of a module, only copies and a header of the length of the opening tag have
two spans of the same length. -/
theorem verbatim_cases (reads : parts.Reads source) {piece : Piece} {m : Mapping}
    (makes : Draft.Makes source (parts.pieces source) piece m) (verbatim : m.isVerbatim = true) :
    (∃ span, piece = .copied span) ∨ ∃ block, parts.instanceBlock = some block ∧
      block.script.openTag.size = parts.header.utf8ByteSize := by
  obtain ⟨stands, _, _⟩ := Draft.slice?_of_makes makes
  have size := Draft.size_of_makes makes
  have same : m.generated.size = m.original.size := eq_of_beq verbatim
  cases piece with
  | fresh text => cases stands
  | copied span => exact Or.inl ⟨span, rfl⟩
  | replaced span text =>
    have original : span = m.original := Option.some.inj stands
    have equal : span.size = text.utf8ByteSize := by
      rw [original, ← same]
      exact size
    cases replaces_of_mem (Draft.piece_mem_of_makes makes) with
    | moduleEnd here => exact absurd equal (reads.size_closeTag_ne (Or.inl here))
    | header here => exact Or.inr ⟨_, here, equal⟩
    | instanceEnd here => exact absurd equal (reads.size_closeTag_ne (Or.inr here))

/-- A header of the length of the opening tag is taken for a copy of it: its first byte is answered
with the first byte of the tag. -/
theorem exists_wrong_answer (reads : parts.Reads source) {block : ScriptBlock}
    (here : parts.instanceBlock = some block)
    (equal : block.script.openTag.size = parts.header.utf8ByteSize) :
    ∃ g o, g < (Draft.ofPieces source (parts.pieces source)).code.utf8ByteSize ∧
      (Draft.ofPieces source (parts.pieces source)).sourceMap.toOriginal g = .exactly o ∧
      (bytes (Draft.ofPieces source (parts.pieces source)).code)[g]? = some 102 ∧
      (bytes source)[o]? = some 60 := by
  have sound := Draft.sound_ofPieces source (parts.pieces source)
  have filled : Piece.emitted source (.replaced block.script.openTag parts.header) ≠ "" := by
    intro empty
    have first := parts.byte_header
    change parts.header = "" at empty
    rw [empty] at first
    cases first
  obtain ⟨m, makes⟩ := Draft.exists_mapping (header_mem here) rfl filled
  have member := Draft.mem_of_makes makes
  have nonempty := sound.ordered.nonempty m member
  have inside := sound.inside m member
  have holds : m.generated.contains m.generated.start = true :=
    (m.generated.contains_iff _).2 ⟨Nat.le_refl _, nonempty⟩
  obtain ⟨stands, _, _⟩ := Draft.slice?_of_makes makes
  have original : block.script.openTag = m.original := Option.some.inj stands
  have verbatim : m.isVerbatim = true := by
    unfold Mapping.isVerbatim
    rw [beq_iff_eq, Draft.size_of_makes makes, ← original, equal]
    rfl
  refine ⟨m.generated.start, m.original.start, Nat.lt_of_lt_of_le nonempty inside, ?_, ?_, ?_⟩
  · apply (SourceMap.toOriginal_eq_exactly_iff sound.ordered _ _).2
    exact ⟨m, member, holds, verbatim, by rw [Nat.sub_self, Nat.add_zero]⟩
  · rw [Draft.byte_of_makes makes holds, Nat.sub_self]
    exact parts.byte_header
  · rw [← original]
    exact (reads.stands (Or.inr here)).byte_openTag

end Parts

/-- In the module of a component every exact answer leads to the byte it was asked for, unless the
opening tag of the instance script is as long as the header that takes its place. -/
theorem exact_answers_verbatim_iff {source : String} {t : Transpiled}
    (made : transpile source = .ok t) :
    (∀ g o, g < t.code.utf8ByteSize → t.sourceMap.toOriginal g = .exactly o →
        (bytes t.code)[g]? = (bytes source)[o]?) ↔
      ∀ script, (parse source).document.instanceScript = some script →
        script.openTag.size ≠ if t.usesProps then 60 else 19 := by
  obtain ⟨parts, reads, code, sourceMap, _, _, usesProps⟩ := transpile_eq_ok made
  have scripts := ScriptBlock.map_script reads.instanceBlock
  have sound := Draft.sound_ofPieces source (parts.pieces source)
  rw [code, sourceMap, usesProps, ← parts.size_header]
  constructor
  · intro agree script found equal
    rw [found] at scripts
    obtain ⟨block, here, rfl⟩ := Option.map_eq_some_iff.1 scripts
    obtain ⟨g, o, inside, exact_, generated, original⟩ := parts.exists_wrong_answer reads here equal
    have same := agree g o inside exact_
    rw [generated, original] at same
    exact absurd same (by decide)
  · intro differ g o inside answer
    obtain ⟨m, member, holds, verbatim, rfl⟩ :=
      (SourceMap.toOriginal_eq_exactly_iff sound.ordered g o).1 answer
    obtain ⟨piece, makes⟩ := Draft.exists_makes member
    rcases Parts.verbatim_cases reads makes verbatim with ⟨span, rfl⟩ | ⟨block, here, equal⟩
    · exact Draft.byte_of_copy makes holds
    · rw [here] at scripts
      exact absurd equal (differ block.script scripts.symm)

/-- With an opening tag of 8 bytes, every answer in the copied script is right. -/
theorem exact_answers_short_tag : ∃ t, transpile "<script>let a = 1;</script>" = .ok t ∧
    t.sourceMap.toOriginal 19 = .exactly 8 ∧
    ∀ g o, g < t.code.utf8ByteSize → t.sourceMap.toOriginal g = .exactly o →
      (bytes t.code)[g]? = (bytes "<script>let a = 1;</script>")[o]? := by
  have checked : (transpile "<script>let a = 1;</script>").toOption.any
      (fun t => t.sourceMap.toOriginal 19 == .exactly 8) = true := by
    decide +kernel
  have size : (parse "<script>let a = 1;</script>").document.instanceScript.map (·.openTag.size) =
      some 8 := by
    decide +kernel
  obtain ⟨t, made, answer⟩ := exists_ok_of_check checked
  refine ⟨t, made, eq_of_beq answer, (exact_answers_verbatim_iff made).2 ?_⟩
  intro script found
  rw [found] at size
  have eight : script.openTag.size = 8 := Option.some.inj size
  rw [eight]
  split
  · decide
  · decide

/-- This opening tag has the 19 bytes of the header, whose first byte is then answered with `<`. -/
theorem header_answers_as_copy : ∃ t, transpile "<script lang=\"ts\" ></script>" = .ok t ∧
    0 < t.code.utf8ByteSize ∧ t.sourceMap.toOriginal 0 = .exactly 0 ∧
    (bytes t.code)[0]? ≠ (bytes "<script lang=\"ts\" ></script>")[0]? := by
  have checked : (transpile "<script lang=\"ts\" ></script>").toOption.any (fun t =>
      t.sourceMap.toOriginal 0 == .exactly 0 && (bytes t.code)[0]? == some 102) = true := by
    decide +kernel
  obtain ⟨t, made, check⟩ := exists_ok_of_check checked
  simp only [Bool.and_eq_true, beq_iff_eq] at check
  obtain ⟨answer, generated⟩ := check
  obtain ⟨inside, _⟩ := List.getElem?_eq_some_iff.1 generated
  rw [length_bytes] at inside
  refine ⟨t, made, inside, answer, ?_⟩
  rw [generated]
  decide +kernel

end TypedSvelte.Component
