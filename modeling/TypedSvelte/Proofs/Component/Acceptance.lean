import TypedSvelte.Component.Transpile
import TypedSvelte.Proofs.Markup.ScriptFrame
import TypedSvelte.Proofs.Outcome

/-!
# Components that are accepted

What it means that a component could be read (`Parts.Reads`), one field for each reader that may
refuse it. Whatever holds of accepted components is derived from these fields and not from the
readers.
-/
namespace TypedSvelte.Component

open Markup Script

/-- Reading the component succeeds at every stage, and these are the results. -/
structure Parts.Reads (source : String) (parts : Parts) : Prop where
  errors : (parse source).errors = []
  fragment : parts.fragment = (parse source).document.fragment
  moduleBlock : (parse source).document.moduleScript.mapM (ScriptBlock.ofScript source) =
    .ok parts.moduleBlock
  instanceBlock : (parse source).document.instanceScript.mapM (ScriptBlock.ofScript source) =
    .ok parts.instanceBlock
  slots : slotsOf parts.fragment = .ok parts.slots
  moduleExports : parts.moduleBlock.mapM (·.exports .standalone) = .ok parts.moduleExports
  instanceExports : parts.instanceBlock.mapM (·.exports .component) = .ok parts.instanceExports

theorem Parts.reads_of_ofSource {source : String} {parts : Parts}
    (read : Parts.ofSource source = .ok parts) : parts.Reads source := by
  unfold Parts.ofSource at read
  dsimp only at read
  split at read
  · cases read
  · rename_i unerring
    obtain ⟨moduleBlock, moduleRead, read⟩ := exists_of_bind_ok read
    obtain ⟨instanceBlock, instanceRead, read⟩ := exists_of_bind_ok read
    obtain ⟨slots, slotsRead, read⟩ := exists_of_bind_ok read
    obtain ⟨moduleExports, moduleExported, read⟩ := exists_of_bind_ok read
    obtain ⟨instanceExports, instanceExported, read⟩ := exists_of_bind_ok read
    cases read
    refine ⟨?_, rfl, moduleRead, instanceRead, slotsRead, moduleExported, instanceExported⟩
    cases errors : (parse source).errors with
    | nil => rfl
    | cons e rest => exact absurd errors (unerring e rest)

/-- The fields say all that reading a component takes. -/
theorem Parts.Reads.ofSource {source : String} {parts : Parts} (reads : parts.Reads source) :
    Parts.ofSource source = .ok parts := by
  unfold Parts.ofSource
  dsimp only
  rw [reads.errors]
  simp only [reads.moduleBlock, reads.instanceBlock, ← reads.fragment, reads.slots,
    reads.moduleExports, reads.instanceExports, bind, Except.bind]
  rfl

/-- A script block keeps the script it was read from, with the outline of its content. -/
theorem ScriptBlock.of_ofScript {source : String} {script : Markup.Script} {block : ScriptBlock}
    (read : ScriptBlock.ofScript source script = .ok block) :
    block.script = script ∧ block.source = script.contentSpan.text source ∧
      Script.parse (isTyped script) block.source = .ok block.outline := by
  unfold ofScript at read
  dsimp only at read
  split at read
  · rename_i outline parsed
    cases read
    exact ⟨rfl, rfl, parsed⟩
  · cases read

/-- An optional script is read exactly if it is there. -/
theorem ScriptBlock.map_script {source : String} {script? : Option Markup.Script}
    {block? : Option ScriptBlock} (read : script?.mapM (ScriptBlock.ofScript source) = .ok block?) :
    block?.map (·.script) = script? := by
  cases script? with
  | none =>
    cases read
    rfl
  | some script =>
    rw [Option.mapM_some] at read
    cases one : ScriptBlock.ofScript source script with
    | error e =>
      rw [one] at read
      cases read
    | ok block =>
      rw [one] at read
      cases read
      exact congrArg some (ScriptBlock.of_ofScript one).1

namespace Parts

variable {source : String} {parts : Parts} {block : ScriptBlock}

theorem Reads.moduleScript (reads : parts.Reads source) (here : parts.moduleBlock = some block) :
    (parse source).document.moduleScript = some block.script := by
  have found := ScriptBlock.map_script reads.moduleBlock
  rw [here] at found
  exact found.symm

theorem Reads.instanceScript (reads : parts.Reads source)
    (here : parts.instanceBlock = some block) :
    (parse source).document.instanceScript = some block.script := by
  have found := ScriptBlock.map_script reads.instanceBlock
  rw [here] at found
  exact found.symm

/-- The instance script of a component that could be read has been read on its own. -/
theorem Reads.exists_instanceBlock (reads : parts.Reads source) {script : Markup.Script}
    (found : (parse source).document.instanceScript = some script) :
    ∃ block, parts.instanceBlock = some block ∧ ScriptBlock.ofScript source script = .ok block := by
  have read := reads.instanceBlock
  rw [found, Option.mapM_some] at read
  cases one : ScriptBlock.ofScript source script with
  | error e =>
    rw [one] at read
    cases read
  | ok block =>
    rw [one] at read
    exact ⟨block, (Except.ok.inj read).symm, rfl⟩

/-- The scripts of a component that could be read stand in its source. -/
theorem Reads.stands (reads : parts.Reads source)
    (here : parts.moduleBlock = some block ∨ parts.instanceBlock = some block) :
    block.script.Stands source.toList := by
  rcases here with here | here
  · exact stands_of_moduleScript (reads.moduleScript here)
  · exact stands_of_instanceScript (reads.instanceScript here)

end Parts

/-- A module is drafted from the pieces of a component that could be read. -/
theorem transpile_eq_ok {source : String} {t : Transpiled} (made : transpile source = .ok t) :
    ∃ parts : Parts, parts.Reads source ∧
      t.code = (Draft.ofPieces source (parts.pieces source)).code ∧
      t.sourceMap = (Draft.ofPieces source (parts.pieces source)).sourceMap ∧
      t.props = parts.props ∧ t.slots = parts.slots ∧ t.usesProps = parts.usesProps := by
  unfold transpile at made
  obtain ⟨parts, read, made⟩ := exists_of_bind_ok made
  cases made
  exact ⟨parts, Parts.reads_of_ofSource read, rfl, rfl, rfl, rfl, rfl⟩

/-- Every component that can be read becomes a module. -/
theorem Parts.Reads.transpile {source : String} {parts : Parts} (reads : parts.Reads source) :
    transpile source = .ok
      { code := (Draft.ofPieces source (parts.pieces source)).code
        sourceMap := (Draft.ofPieces source (parts.pieces source)).sourceMap
        props := parts.props
        slots := parts.slots
        usesProps := parts.usesProps } := by
  unfold Component.transpile
  rw [reads.ofSource]
  rfl

end TypedSvelte.Component
