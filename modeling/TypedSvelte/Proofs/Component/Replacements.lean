import TypedSvelte.Proofs.Component.InstanceItems
import TypedSvelte.Proofs.Component.Quotations

/-!
# What a module replaces

Templates, script bodies and imports are copied and framed by text of their own; nothing in them is
replaced (`Quotes`). So a module replaces at most three spans of its component: the opening tag of
the instance script, and the closing tags of both scripts.
-/
namespace TypedSvelte.Component

open Markup

/-- The copy of a script stops and goes on only at the ends of items and where exported declarations
begin; these are the offsets of one item, in the component. -/
structure ScriptBlock.CutsAt (block : ScriptBlock) (allowed : Nat → Prop) (item : Script.Item) :
    Prop where
  start : allowed (block.place item).start
  stop : allowed (block.place item).stop
  declaration : ∀ start declared, item.kind = .exportDeclaration start declared →
    allowed (block.base + start)

section

variable {allowed : Nat → Prop} {block : ScriptBlock}

theorem ScriptBlock.CutsAt.gap {item : Script.Item} (cuts : block.CutsAt allowed item) {gap : Span}
    (found : block.gap? item = some gap) : allowed gap.stop := by
  obtain ⟨span, kind⟩ := item
  cases kind with
  | imports _ | exportClause _ _ _ =>
    cases found
    exact cuts.stop
  | exportDeclaration start declared =>
    cases found
    have begins := cuts.declaration start declared rfl
    rw [Nat.add_comm] at begins
    exact begins
  | statement _ | exportAll | exportDefault _ _ | other => cases found

theorem quotes_bodyPieces (isDeclared : String → Bool) {stop cursor : Nat} (last : allowed stop)
    (here : allowed cursor) (forward : List String) {items : List Script.Item}
    (cuts : ∀ item ∈ items, block.CutsAt allowed item) :
    Quotes (fun s => allowed s.start ∧ allowed s.stop)
      (bodyPieces block isDeclared stop cursor forward items) := by
  induction items generalizing cursor forward with
  | nil => simp [bodyPieces, here, last]
  | cons item rest ih =>
    obtain ⟨atItem, atRest⟩ := List.forall_mem_cons.1 cuts
    have later {cursor : Nat} (here : allowed cursor) (forward : List String) :=
      ih here forward atRest
    obtain ⟨step, next, forward', steps, same⟩ :=
      block.steps_bodyPieces isDeclared stop cursor forward item rest
    rw [same]
    cases steps with
    | skip found => simp [here, atItem.start, later (atItem.gap found)]
    | pass unfound => exact later here forward'
    | declare unfound text => simp [here, atItem.start, later atItem.start]

theorem quotes_importPieces (cuts : ∀ item ∈ block.outline.items, block.CutsAt allowed item) :
    Quotes (fun s => allowed s.start ∧ allowed s.stop) (importPieces block) := by
  apply quotes_flatMap
  intro item member
  have atItem := cuts item member
  split
  · simp [atItem.start, atItem.stop]
  · exact quotes_nil

end

/-- The spans that a module replaces, each with the text that takes its place. -/
inductive Parts.Replaces (parts : Parts) : Span → String → Prop
  | moduleEnd {block : ScriptBlock} (here : parts.moduleBlock = some block) :
      Replaces parts block.script.closeTag ";\n"
  | header {block : ScriptBlock} (here : parts.instanceBlock = some block) :
      Replaces parts block.script.openTag parts.header
  | instanceEnd {block : ScriptBlock} (here : parts.instanceBlock = some block) :
      Replaces parts block.script.closeTag ";\n"

/-- A module replaces nothing else. -/
theorem Parts.replaces_of_mem {source : String} {parts : Parts} {span : Span} {text : String}
    (member : .replaced span text ∈ parts.pieces source) : parts.Replaces span text := by
  have allows : Allows source (fun _ => True) (marksOf parts.fragment) := fun _ _ => trivial
  have template := (quotes_templatePieces allows).not_replaced span text
  have anywhere (block : ScriptBlock) (item : Script.Item) : block.CutsAt (fun _ => True) item :=
    ⟨trivial, trivial, fun _ _ _ => trivial⟩
  have noImport (block : ScriptBlock) :=
    (quotes_importPieces fun item _ => anywhere block item).not_replaced span text
  have noBody (block : ScriptBlock) (isDeclared : String → Bool) :
      .replaced span text ∉ instancePieces block isDeclared :=
    (quotes_bodyPieces isDeclared trivial trivial [] fun item _ => anywhere block item).not_replaced
      span text
  unfold pieces renderPieces at member
  simp only [List.mem_append, template, List.mem_singleton, reduceCtorEq, or_false] at member
  rcases member with (inImports | inModule) | inRender
  · cases here : parts.instanceBlock with
    | none => simp [here] at inImports
    | some block =>
      simp only [here, Option.map_some, Option.getD_some] at inImports
      exact absurd inImports (noImport block)
  · cases here : parts.moduleBlock with
    | none => simp [here] at inModule
    | some block =>
      simp only [here, Option.map_some, Option.getD_some, modulePieces, List.mem_cons, reduceCtorEq,
        Piece.replaced.injEq, List.not_mem_nil, or_false, false_or] at inModule
      obtain ⟨rfl, rfl⟩ := inModule
      exact .moduleEnd here
  · split at inRender
    · rename_i block here
      simp only [List.mem_append, List.mem_singleton, noBody, or_false,
        Piece.replaced.injEq] at inRender
      rcases inRender with ⟨rfl, rfl⟩ | ⟨rfl, rfl⟩
      · exact .header here
      · exact .instanceEnd here
    · simp at inRender

/-- The header is 19 bytes long, or 60 when it declares the properties. -/
theorem Parts.size_header (parts : Parts) :
    parts.header.utf8ByteSize = if parts.usesProps then 60 else 19 := by
  unfold Parts.header
  split
  · rfl
  · rfl

theorem Parts.byte_header (parts : Parts) : (bytes parts.header)[0]? = some 102 := by
  unfold Parts.header
  rw [byte_append_left _ _ (by decide)]
  rfl

/-- The header stands in the module if there is an instance script. -/
theorem Parts.header_mem {source : String} {parts : Parts} {block : ScriptBlock}
    (here : parts.instanceBlock = some block) :
    .replaced block.script.openTag parts.header ∈ parts.pieces source := by
  simp [pieces, renderPieces, here]

end TypedSvelte.Component
