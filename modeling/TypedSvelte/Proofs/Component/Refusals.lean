import TypedSvelte.Proofs.Component.Acceptance
import TypedSvelte.Proofs.Markup.Safety
import TypedSvelte.Proofs.Script.ExportPlaces

/-!
# Components that are refused

Why a component cannot be read (`Refuses`), one constructor for each reader that may refuse it. All
of them point into the source, whatever the reader counts its offsets from (`Refuses.le`).
-/
namespace TypedSvelte.Component

open Markup Script

variable {source : String}

mutual

private theorem placed_node_elements : ∀ (node : Node) {parent : Span}, node.Placed source parent →
    ∀ head ∈ node.elements, ∀ a ∈ head.attributes, a.Placed source head.span
  | .element _ children, _, .element _ attributes inner =>
    List.forall_mem_cons.2 ⟨attributes, placed_elements children inner⟩
  | .text _, _, _ | .comment _, _, _ | .mustache _ _, _, _ | .tag _ _ _, _, _ => nofun
  | .ifBlock _ _ consequent alternate, _, .ifBlock _ _ inner other =>
    List.forall_mem_append.2 ⟨placed_elements consequent inner,
      placed_alternate_elements alternate other⟩
  | .each _ body fallback, _, .each _ _ inner others =>
    List.forall_mem_append.2 ⟨placed_elements body inner, placed_branch_elements fallback others⟩
  | .await _ pending onThen onCatch, _, .await _ _ inner thens catches =>
    List.forall_mem_append.2 ⟨List.forall_mem_append.2 ⟨placed_elements pending inner,
      placed_branch_elements onThen thens⟩, placed_branch_elements onCatch catches⟩
  | .key _ _ body, _, .key _ _ inner => placed_elements body inner

/-- The attributes of all elements of placed nodes are placed. -/
theorem placed_elements : ∀ (nodes : List Node) {parent : Span},
    (∀ node ∈ nodes, node.Placed source parent) →
    ∀ head ∈ elementsOf nodes, ∀ a ∈ head.attributes, a.Placed source head.span
  | [], _, _ => nofun
  | node :: rest, _, placed =>
    have each := List.forall_mem_cons.1 placed
    List.forall_mem_append.2 ⟨placed_node_elements node each.1, placed_elements rest each.2⟩

private theorem placed_branch_elements : ∀ (branch : Option (List Node)) {parent : Span},
    (∀ nodes ∈ branch, ∀ node ∈ nodes, node.Placed source parent) →
    ∀ head ∈ elementsOfBranch branch, ∀ a ∈ head.attributes, a.Placed source head.span
  | none, _, _ => nofun
  | some nodes, _, placed => placed_elements nodes (placed nodes rfl)

private theorem placed_alternate_elements : ∀ (rest : Alternate) {parent : Span},
    rest.Placed source parent →
    ∀ head ∈ rest.elements, ∀ a ∈ head.attributes, a.Placed source head.span
  | .absent, _, _ => nofun
  | .otherwise nodes, _, .otherwise inner => placed_elements nodes inner
  | .elseIf _ _ consequent alternate, _, .elseIf _ _ inner other =>
    List.forall_mem_append.2 ⟨placed_elements consequent inner,
      placed_alternate_elements alternate other⟩

end

/-- Why a component is refused. -/
inductive Refuses (source : String) : TransformError → Prop
  | markup {error : MarkupError} (noted : error ∈ (parse source).errors) :
      Refuses source (.markup error)
  | script {script : Markup.Script} {error : ScriptError}
      (inDocument : script ∈ (parse source).document.scripts)
      (refused : Script.parse (ScriptBlock.isTyped script) (script.contentSpan.text source) =
        .error error) : Refuses source (.script (script.contentSpan.start + error.offset))
  | slot {head : ElementHead} {a : Attribute} {s : Span} {fault : StructuralFault}
      (inDocument : head ∈ elementsOf (parse source).document.fragment)
      (member : a ∈ head.attributes) (ofAttribute : s ∈ a.spans) :
      Refuses source (.structural fault s.start)
  | refusedExport {script : Markup.Script} {block : ScriptBlock} {mode : ExportMode}
      {error : ExportError} (inDocument : script ∈ (parse source).document.scripts)
      (read : ScriptBlock.ofScript source script = .ok block)
      (refused : (Subject.mk block.outline block.source (ScriptBlock.isTyped block.script)).exports
        mode = .error error) : Refuses source (.ofExport block.base error)

private theorem ofScript_fails {script : Markup.Script}
    (inDocument : script ∈ (parse source).document.scripts) :
    FailsWith (Refuses source) (ScriptBlock.ofScript source script) := by
  unfold ScriptBlock.ofScript
  dsimp only
  split
  · exact failsWith_ok _
  · rename_i error refused
    exact failsWith_error (.script inDocument refused)

theorem exports_fail {script : Markup.Script} {block : ScriptBlock} {mode : ExportMode}
    (inDocument : script ∈ (parse source).document.scripts)
    (read : ScriptBlock.ofScript source script = .ok block) :
    FailsWith (Refuses source) (block.exports mode) :=
  FailsWith.mapError fun _ refused => .refusedExport inDocument read refused

private theorem add_fails (slot : Slot) (a : Attribute) :
    FailsWith (fun error => ∃ s ∈ a.spans, ∃ fault, error = .structural fault s.start)
      (slot.add a) := by
  unfold Slot.add
  split
  · split
    · split
      · exact failsWith_ok _
      · exact failsWith_error ⟨_, List.mem_cons_self, _, rfl⟩
    · exact failsWith_ok _
  · exact failsWith_ok _
  · exact failsWith_error ⟨_, List.mem_cons_self, _, rfl⟩
  · exact failsWith_ok _

private theorem slotsOf_fails : FailsWith (Refuses source) (slotsOf (parse source).document.fragment) := by
  refine failsWith_foldlM (fun slots head inDocument => ?_) []
  have inFragment := (List.mem_filter.1 inDocument).1
  refine FailsWith.bind ?_ fun slot _ => failsWith_ok _
  refine failsWith_foldlM (fun slot a member error refused => ?_) _
  obtain ⟨s, ofAttribute, fault, rfl⟩ := add_fails slot a error refused
  exact .slot inFragment member ofAttribute

/-- A script block has been read from the script that it is for. -/
theorem exists_script_of_mapM {script? : Option Markup.Script} {block? : Option ScriptBlock}
    (read : script?.mapM (ScriptBlock.ofScript source) = .ok block?) {block : ScriptBlock}
    (here : block ∈ block?) :
    ∃ script ∈ script?, ScriptBlock.ofScript source script = .ok block := by
  cases script? with
  | none =>
    cases read
    cases here
  | some script =>
    rw [Option.mapM_some] at read
    obtain ⟨one, made, read⟩ := exists_of_bind_ok read
    cases read
    cases here
    exact ⟨script, rfl, made⟩

/-- A component is refused for one of these reasons alone. -/
theorem transpile_fails (source : String) : FailsWith (Refuses source) (transpile source) := by
  have inModule {script : Markup.Script} (here : script ∈ (parse source).document.moduleScript) :
      script ∈ (parse source).document.scripts :=
    List.mem_append_left _ (Option.mem_toList.2 here)
  have inInstance {script : Markup.Script}
      (here : script ∈ (parse source).document.instanceScript) :
      script ∈ (parse source).document.scripts :=
    List.mem_append_right _ (Option.mem_toList.2 here)
  unfold transpile Parts.ofSource
  refine FailsWith.bind ?_ fun parts _ => failsWith_ok _
  dsimp only
  split
  · rename_i error rest errors
    exact failsWith_error (.markup (errors ▸ List.mem_cons_self))
  · refine (failsWith_mapM fun script here => ofScript_fails (inModule here)).bind
      fun moduleBlock moduleRead => ?_
    refine (failsWith_mapM fun script here => ofScript_fails (inInstance here)).bind
      fun instanceBlock instanceRead => ?_
    refine slotsOf_fails.bind fun slots _ => ?_
    refine (failsWith_mapM fun block here => ?_).bind fun moduleExports _ => ?_
    · obtain ⟨script, found, read⟩ := exists_script_of_mapM moduleRead here
      exact exports_fail (inModule found) read
    · refine (failsWith_mapM fun block here => ?_).bind fun instanceExports _ => failsWith_ok _
      obtain ⟨script, found, read⟩ := exists_script_of_mapM instanceRead here
      exact exports_fail (inInstance found) read

/-- An offset of the content of a script is one of the source, counted from the content's start. -/
theorem le_of_content {s : Span} (fits : s.Fits source) {n : Nat}
    (inside : n ≤ (s.text source).utf8ByteSize) : s.start + n ≤ source.utf8ByteSize := by
  obtain ⟨text, slice⟩ := exists_slice? fits.start fits.stop fits.ordered
  have whole : s.text source = text := by rw [Span.text, slice, Option.getD_some]
  have stop := stop_of_slice? slice
  have last := fits.stop.le
  rw [whole] at inside
  omega

private theorem fits_of_scripts {script : Markup.Script}
    (inDocument : script ∈ (parse source).document.scripts) : script.contentSpan.Fits source :=
  ((document_placed source).scripts script inDocument).content.fits

/-- A component is refused at a place of its source, or at the end of it. -/
theorem Refuses.le {error : TransformError} (refuses : Refuses source error) {offset : Nat}
    (told : error.offset? = some offset) : offset ≤ source.utf8ByteSize := by
  cases refuses with
  | markup noted =>
    cases told
    exact ((parse_safe source).errors _ noted).start.le
  | script inDocument refused =>
    cases told
    exact le_of_content (fits_of_scripts inDocument) (le_of_parse_error refused)
  | slot inDocument member ofAttribute =>
    cases told
    have placed := placed_elements _ (document_placed source).fragment _ inDocument _ member
    exact (placed.spans_fit _ ofAttribute).start.le
  | refusedExport inDocument read refused =>
    cases told
    obtain ⟨same, text, accepted⟩ := ScriptBlock.of_ofScript read
    subst same
    rw [text] at accepted
    exact le_of_content (fits_of_scripts inDocument)
      (Subject.exports_fail (within_of_parse accepted) _ refused)

end TypedSvelte.Component
