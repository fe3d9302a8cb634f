import TypedSvelte.Proofs.Component.Acceptance
import TypedSvelte.Proofs.Component.MovedPieces
import TypedSvelte.Proofs.Component.Replacements
import TypedSvelte.Proofs.Component.TemplatePlaces
import TypedSvelte.Proofs.Markup.RefilledDocuments
import TypedSvelte.Proofs.Script.BoundedScripts

/-!
# Texts, comments and styles do nothing

Other text in place of a filler moves the offsets behind it and nothing else (`Refilled`). The
scripts and all that the template refers to keep their text at their moved places, so that the
component is read with the same results (`Reads.refilled_reads`) and becomes the same module
(`transpile_refilled`).
-/
namespace TypedSvelte

namespace Component

open Markup Script

variable {source other : String} {move : Nat → Nat}

namespace ScriptBlock

variable {block : ScriptBlock}

def moved (move : Nat → Nat) (block : ScriptBlock) : ScriptBlock :=
  { block with script := block.script.moved move }

private theorem ofScript_moved {script : Markup.Script}
    (text : (script.contentSpan.moved move).text other = script.contentSpan.text source)
    (read : ofScript source script = .ok block) :
    ofScript other (script.moved move) = .ok (block.moved move) := by
  have content : (script.moved move).contentSpan.text other = script.contentSpan.text source := text
  have typed : isTyped (script.moved move) = isTyped script := rfl
  unfold ofScript at read ⊢
  dsimp only at read ⊢
  rw [content, typed]
  split at read
  · cases read
    rfl
  · cases read

/-- The exports of a script do not depend on where it stands, though errors in them do. -/
private theorem exports_moved {mode : ExportMode} {exports : Exports}
    (exported : block.exports mode = .ok exports) :
    (block.moved move).exports mode = .ok exports := by
  unfold ScriptBlock.exports at exported ⊢
  change Except.mapError _ ((Subject.mk block.outline block.source
    (isTyped block.script)).exports mode) = _
  cases answer : (Subject.mk block.outline block.source (isTyped block.script)).exports mode with
  | error e =>
    rw [answer] at exported
    cases exported
  | ok found =>
    rw [answer] at exported
    exact exported

/-- Offsets in the content are moved like its beginning. -/
def CarriedBy (move : Nat → Nat) (block : ScriptBlock) : Prop :=
  ∀ n, block.base + n ≤ block.script.contentSpan.stop →
    move (block.base + n) = move block.base + n

section

variable (carried : block.CarriedBy move)

include carried

/-- Spans of the content are moved with it. -/
theorem shift_moved {s : Span} (start : s.start + block.base ≤ block.script.contentSpan.stop)
    (stop : s.stop + block.base ≤ block.script.contentSpan.stop) :
    s.shift (block.moved move).base = (s.shift block.base).moved move := by
  have ends {n : Nat} (inside : n + block.base ≤ block.script.contentSpan.stop) :
      n + move block.base = move (n + block.base) := by
    rw [Nat.add_comm] at inside
    rw [Nat.add_comm n block.base, carried n inside, Nat.add_comm]
  exact congrArg₂ Span.mk (ends start) (ends stop)

private theorem place_moved {item : Item} (cuts : block.CutsAt (· ≤ block.script.contentSpan.stop) item) :
    (block.moved move).place item = (block.place item).moved move :=
  shift_moved carried cuts.start cuts.stop

theorem gap?_moved {item : Item} (cuts : block.CutsAt (· ≤ block.script.contentSpan.stop) item) :
    (block.moved move).gap? item = (block.gap? item).map (·.moved move) := by
  have ends (gap : Span) (found : block.gap? item = some gap) := cuts.gap found
  obtain ⟨span, kind⟩ := item
  cases kind with
  | imports _ | exportClause _ _ _ | exportDeclaration _ _ =>
    exact congrArg some (shift_moved carried cuts.start (ends _ rfl))
  | statement _ | exportAll | exportDefault _ _ | other => rfl

private theorem bodyPieces_moved (isDeclared : String → Bool) (cursor : Nat) (forward : List String)
    {items : List Item}
    (cuts : ∀ item ∈ items, block.CutsAt (· ≤ block.script.contentSpan.stop) item) :
    bodyPieces (block.moved move) isDeclared (move block.script.contentSpan.stop) (move cursor)
        forward items =
      (bodyPieces block isDeclared block.script.contentSpan.stop cursor forward items).map
        (Piece.moved move) := by
  induction items generalizing cursor forward with
  | nil => rfl
  | cons item rest ih =>
    obtain ⟨atItem, atRest⟩ := List.forall_mem_cons.1 cuts
    have place := place_moved carried atItem
    have gap := gap?_moved carried atItem
    have later (cursor : Nat) (forward : List String) := ih cursor forward atRest
    cases found : block.gap? item with
    | some range =>
      rw [found] at gap
      rw [bodyPieces_of_gap gap, bodyPieces_of_gap found, place]
      exact congrArg (Piece.copied _ :: ·) (later _ _)
    | none =>
      rw [found] at gap
      cases due : dueName? isDeclared forward item with
      | some name =>
        rw [bodyPieces_of_due due, bodyPieces_of_due due, place]
        exact congrArg (Piece.copied _ :: Piece.fresh _ :: ·) (later _ _)
      | none =>
        rw [bodyPieces_of_whole gap due, bodyPieces_of_whole found due]
        exact later _ _

private theorem importPieces_moved
    (cuts : ∀ item ∈ block.outline.items, block.CutsAt (· ≤ block.script.contentSpan.stop) item) :
    importPieces (block.moved move) = (importPieces block).map (Piece.moved move) := by
  unfold importPieces
  rw [List.map_flatMap, List.flatMap_def, List.flatMap_def]
  refine congrArg List.flatten (List.map_congr_left fun item member => ?_)
  rw [place_moved carried (cuts item member)]
  split <;> rfl

end

end ScriptBlock

namespace Parts

variable {parts : Parts} {fragment : List Node}

/-- The parts with their scripts moved and another fragment. -/
def moved (move : Nat → Nat) (parts : Parts) (fragment : List Node) : Parts :=
  { parts with
    fragment
    moduleBlock := parts.moduleBlock.map (ScriptBlock.moved move)
    instanceBlock := parts.instanceBlock.map (ScriptBlock.moved move) }

section

variable (mentions : templateMentions propsName fragment = templateMentions propsName parts.fragment)

include mentions

private theorem usesProps_moved : (parts.moved move fragment).usesProps = parts.usesProps := by
  have blocks (name : String) (block? : Option ScriptBlock) :
      (block?.map (ScriptBlock.moved move)).toList.any (·.mentions name) =
        block?.toList.any (·.mentions name) := by
    cases block? <;> rfl
  unfold usesProps moved
  dsimp only
  rw [mentions, List.any_append, List.any_append, blocks, blocks]

private theorem header_moved : (parts.moved move fragment).header = parts.header := by
  unfold header
  rw [usesProps_moved mentions]

private theorem footer_moved : (parts.moved move fragment).footer = parts.footer := by
  unfold footer
  rw [usesProps_moved mentions]
  rfl

/-- The module of moved parts. -/
theorem pieces_moved
    (template : nodesPieces other fragment =
      (nodesPieces source parts.fragment).map (Piece.moved move))
    (scripts : ∀ block ∈ parts.instanceBlock, block.CarriedBy move ∧
      ∀ item ∈ block.outline.items, block.CutsAt (· ≤ block.script.contentSpan.stop) item) :
    (parts.moved move fragment).pieces other = (parts.pieces source).map (Piece.moved move) := by
  have modules : ((parts.moduleBlock.map (ScriptBlock.moved move)).map modulePieces).getD [] =
      ((parts.moduleBlock.map modulePieces).getD []).map (Piece.moved move) := by
    cases parts.moduleBlock <;> rfl
  have imports : ((parts.instanceBlock.map (ScriptBlock.moved move)).map importPieces).getD [] =
      ((parts.instanceBlock.map importPieces).getD []).map (Piece.moved move) := by
    cases here : parts.instanceBlock with
    | none => rfl
    | some block =>
      obtain ⟨carried, cuts⟩ := scripts block here
      exact ScriptBlock.importPieces_moved carried cuts
  have render : (parts.moved move fragment).renderPieces =
      parts.renderPieces.map (Piece.moved move) := by
    have header : (parts.moved move fragment).header = parts.header := header_moved mentions
    have blocks : (parts.moved move fragment).instanceBlock =
        parts.instanceBlock.map (ScriptBlock.moved move) := rfl
    unfold renderPieces
    rw [header, blocks]
    cases here : parts.instanceBlock with
    | none => rfl
    | some block =>
      obtain ⟨carried, cuts⟩ := scripts block here
      have body : instancePieces (block.moved move) parts.isDeclared =
          (instancePieces block parts.isDeclared).map (Piece.moved move) :=
        ScriptBlock.bodyPieces_moved carried parts.isDeclared _ _ cuts
      change [_] ++ instancePieces (block.moved move) parts.isDeclared ++ [_] = _
      rw [body]
      simp [Piece.moved, ScriptBlock.moved, Markup.Script.moved]
  have last : (parts.moved move fragment).footer = parts.footer := footer_moved mentions
  unfold pieces templatePieces
  rw [render, last]
  simp only [List.map_append, ← modules, ← imports, ← template, moved]
  rfl

end

/-- What is read of an optional script is read of the moved one, if it is read of a moved script. -/
theorem mapM_moved {α β ε : Type} {read read' : α → Except ε β} {onScript : α → α} {onResult : β → β}
    {x? : Option α} {y? : Option β}
    (each : ∀ x ∈ x?, ∀ y, read x = .ok y → read' (onScript x) = .ok (onResult y))
    (found : x?.mapM read = .ok y?) : (x?.map onScript).mapM read' = .ok (y?.map onResult) := by
  cases x? with
  | none =>
    cases found
    rfl
  | some x =>
    rw [Option.mapM_some] at found
    obtain ⟨y, one, found⟩ := exists_of_bind_ok found
    cases found
    rw [Option.map_some, Option.mapM_some, each x rfl y one]
    rfl

private theorem exports_moved {mode : ExportMode} {block? : Option ScriptBlock} {exports? : Option Exports}
    (found : block?.mapM (·.exports mode) = .ok exports?) :
    (block?.map (ScriptBlock.moved move)).mapM (·.exports mode) = .ok exports? := by
  have exported : (block?.map (ScriptBlock.moved move)).mapM (·.exports mode) =
      .ok (exports?.map id) :=
    mapM_moved (fun _ _ _ one => ScriptBlock.exports_moved one) found
  rwa [Option.map_id] at exported

/-- A source is read like another one if its scripts have the same text and its fragment has the
same slots. -/
theorem Reads.moved (reads : parts.Reads source) (errors : (parse other).errors = [])
    (moduleScript : (parse other).document.moduleScript =
      (parse source).document.moduleScript.map (Markup.Script.moved move))
    (instanceScript : (parse other).document.instanceScript =
      (parse source).document.instanceScript.map (Markup.Script.moved move))
    (texts : ∀ script, (parse source).document.moduleScript = some script ∨
      (parse source).document.instanceScript = some script →
        (script.contentSpan.moved move).text other = script.contentSpan.text source)
    (slots : slotsOf (parse other).document.fragment = .ok parts.slots) :
    (parts.moved move (parse other).document.fragment).Reads other where
  errors := errors
  fragment := rfl
  moduleBlock := by
    rw [moduleScript]
    exact mapM_moved (fun script here _ => ScriptBlock.ofScript_moved (texts script (.inl here)))
      reads.moduleBlock
  instanceBlock := by
    rw [instanceScript]
    exact mapM_moved (fun script here _ => ScriptBlock.ofScript_moved (texts script (.inr here)))
      reads.instanceBlock
  slots := slots
  moduleExports := exports_moved reads.moduleExports
  instanceExports := exports_moved reads.instanceExports

end Parts

theorem Quotes.mono {allowed wider : Span → Prop} {pieces : List Piece}
    (quotes : Quotes allowed pieces) (widen : ∀ s, allowed s → wider s) : Quotes wider pieces := by
  intro piece member
  have here := quotes piece member
  cases piece with
  | fresh text => trivial
  | copied s => exact widen s here
  | replaced s text => exact here

/-- All that the pieces stand for is spared by an edit. -/
def Spared (edit : Span) (pieces : List Piece) : Prop :=
  ∀ piece ∈ pieces, ∀ s ∈ piece.original?, edit.Spares s

theorem Quotes.spared {edit : Span} {pieces : List Piece} (quotes : Quotes edit.Spares pieces) :
    Spared edit pieces := by
  intro piece member s original
  have here := quotes piece member
  cases piece with
  | fresh text => cases original
  | copied s' =>
    cases original
    exact here
  | replaced s' text => exact here.elim

@[simp]
theorem spared_fresh {edit : Span} (text : String) (pieces : List Piece) :
    Spared edit (.fresh text :: pieces) ↔ Spared edit pieces := by
  simp [Spared, Piece.original?]

@[simp]
theorem spared_copied {edit s : Span} (pieces : List Piece) :
    Spared edit (.copied s :: pieces) ↔ edit.Spares s ∧ Spared edit pieces := by
  simp [Spared, Piece.original?]

@[simp]
theorem spared_replaced {edit s : Span} (text : String) (pieces : List Piece) :
    Spared edit (.replaced s text :: pieces) ↔ edit.Spares s ∧ Spared edit pieces := by
  simp [Spared, Piece.original?]

private theorem spared_nil {edit : Span} : Spared edit [] := nofun

private theorem spared_append {edit : Span} {first second : List Piece} :
    Spared edit (first ++ second) ↔ Spared edit first ∧ Spared edit second :=
  List.forall_mem_append

private theorem moved_id_head (head : ElementHead) : head.moved id = head := by
  have attributes : head.attributes.map (Attribute.moved id) = head.attributes :=
    (List.map_congr_left fun a _ => a.moved_id).trans (List.map_id _)
  unfold ElementHead.moved
  rw [attributes]
  rfl

private theorem moved_id_piece (piece : Piece) : piece.moved id = piece := by
  cases piece <;> rfl

section

variable {content : Span} {new : String} {hole : Nat} (refilled : Refilled source content new hole)

include refilled

private theorem text_refilled {s : Span} (spares : content.Spares s) :
    (s.moved (content.displace new.utf8ByteSize)).text (splice source content new) =
      s.text source :=
  text_displaced refilled.fits refilled.ends refilled.ordered spares new

/-- The names of directives are found where they went. -/
theorem namesMove_refilled : NamesMove source (splice source content new)
    (content.displace new.utf8ByteSize) (marksOf (parse source).document.fragment) := by
  intro mark member
  cases mark with
  | expression e => trivial
  | directive d =>
    have spares : content.Spares d.span := refilled.marks _ member
    have text := text_refilled refilled spares
    obtain ⟨k, places⟩ := exists_directiveName source d
    have place := places source d.span rfl
    obtain ⟨_, stop⟩ := directiveName_inside (between_of_mem_marks member)
    change (directiveName source { d with span := d.span }).stop ≤ d.span.stop at stop
    rw [place] at stop
    dsimp only at stop
    change directiveName _ _ = (directiveName source { d with span := d.span }).moved _
    rw [place, places _ _ text]
    exact congrArg₂ Span.mk (spares.carries (by omega)).symm (spares.carries stop).symm

/-- So the template makes the same pieces. -/
theorem template_refilled :
    nodesPieces (splice source content new)
        (parse (splice source content new)).document.fragment =
      (nodesPieces source (parse source).document.fragment).map
        (Piece.moved (content.displace new.utf8ByteSize)) := by
  have same := congrArg (nodesPieces (splice source content new)) refilled.fragment
  rw [nodesPieces_moved _ (namesMove_id _), nodesPieces_moved _ (namesMove_refilled refilled),
    List.map_congr_left fun piece _ => moved_id_piece piece, List.map_id'] at same
  exact same

private theorem elements_refilled :
    elementsOf (parse (splice source content new)).document.fragment =
      (elementsOf (parse source).document.fragment).map
        (ElementHead.moved (content.displace new.utf8ByteSize)) := by
  have same := congrArg elementsOf refilled.fragment
  rw [elementsOf_moved, elementsOf_moved, List.map_congr_left fun head _ => moved_id_head head,
    List.map_id'] at same
  exact same

private theorem mentions_refilled (name : String) :
    templateMentions name (parse (splice source content new)).document.fragment =
      templateMentions name (parse source).document.fragment := by
  have same := congrArg (templateMentions name) refilled.fragment
  rw [templateMentions_moved, templateMentions_moved] at same
  exact same

/-- The edit spares what lies in a script. -/
theorem spares_script {script : Markup.Script}
    (kept : (parse source).document.moduleScript = some script ∨
      (parse source).document.instanceScript = some script) {s : Span}
    (lies : s.Lies source script.span) : content.Spares s :=
  (refilled.scripts script kept).inside lies.fits.ordered lies.inside

private theorem spared_template : Spared content (templatePieces source (parse source).document.fragment) := by
  apply Quotes.spared
  apply quotes_templatePieces
  intro mark member
  have between := between_of_mem_marks member
  obtain ⟨start, stop⟩ := place_inside between
  have ordered : (place source mark).start ≤ (place source mark).stop := by
    cases mark with
    | expression e => exact between.range.2.1
    | directive d => exact Nat.le_add_right _ _
  exact (refilled.marks mark member).inside ordered ⟨start, stop⟩

end

/-- A script of the document is placed. -/
theorem placed_script {script : Markup.Script}
    (kept : (parse source).document.moduleScript = some script ∨
      (parse source).document.instanceScript = some script) :
    script.Placed source (parse source).document.span := by
  apply (document_placed source).scripts
  rcases kept with isModule | isInstance
  · exact List.mem_append_left _ (Option.mem_toList.2 isModule)
  · exact List.mem_append_right _ (Option.mem_toList.2 isInstance)

namespace Parts

variable {parts : Parts} {block : ScriptBlock} (reads : parts.Reads source)

include reads

/-- The copy of the instance script stops and goes on within its content. -/
theorem Reads.cutsAt (here : parts.instanceBlock = some block) {item : Item}
    (member : item ∈ block.outline.items) :
    block.CutsAt (fun o => block.script.contentSpan.start ≤ o ∧ o ≤ block.script.contentSpan.stop)
      item := by
  have found := reads.instanceScript here
  obtain ⟨_, one, read⟩ := reads.exists_instanceBlock found
  cases here.symm.trans one
  obtain ⟨_, text, parsed⟩ := ScriptBlock.of_ofScript read
  have fits := (placed_script (.inr found)).content.fits
  obtain ⟨content, slice⟩ := exists_slice? fits.start fits.stop fits.ordered
  have same : block.source = content := by
    rw [text, Span.text, slice]
    rfl
  have size := stop_of_slice? slice
  rw [← same] at size
  obtain ⟨⟨start, stop⟩, declaration⟩ := within_of_parse parsed item member
  have within {n : Nat} (inside : n ≤ block.source.utf8ByteSize) :
      block.base ≤ n + block.base ∧ n + block.base ≤ block.script.contentSpan.stop := by
    change _ = block.base + block.source.utf8ByteSize at size
    omega
  refine ⟨within start, within stop, fun begin declared kind => ?_⟩
  rw [kind] at declaration
  rw [Nat.add_comm]
  exact within declaration.1

section

variable {content : Span} {new : String} {hole : Nat} (refilled : Refilled source content new hole)

include refilled

/-- The edit spares all that the module stands for. -/
theorem Reads.spared : Spared content (parts.pieces source) := by
  have copies (block : ScriptBlock) (here : parts.instanceBlock = some block) :
      Spared content (importPieces block) ∧
        Spared content (instancePieces block parts.isDeclared) := by
    have found := reads.instanceScript here
    have spares := spares_script refilled (.inr found) (placed_script (.inr found)).content
    have ordered := (placed_script (.inr found)).content.fits.ordered
    have cuts (item : Item) (member : item ∈ block.outline.items) := reads.cutsAt here member
    have body := quotes_bodyPieces parts.isDeclared ⟨ordered, Nat.le_refl _⟩
      ⟨Nat.le_refl _, ordered⟩ [] cuts
    exact ⟨((quotes_importPieces cuts).mono fun s ends => spares.between ends.1 ends.2).spared,
      (body.mono fun s ends => spares.between ends.1 ends.2).spared⟩
  unfold pieces renderPieces
  simp only [spared_append]
  refine ⟨⟨⟨⟨?_, ?_⟩, ?_⟩, ?_⟩, by simp [spared_nil]⟩
  · cases here : parts.instanceBlock with
    | none => exact spared_nil
    | some block => exact (copies block here).1
  · cases here : parts.moduleBlock with
    | none => exact spared_nil
    | some block =>
      have found := reads.moduleScript here
      have placed := placed_script (.inl found)
      simp [modulePieces, spared_nil, spares_script refilled (.inl found) placed.content,
        spares_script refilled (.inl found) placed.closeTag]
  · cases here : parts.instanceBlock with
    | none => simp [spared_nil]
    | some block =>
      have found := reads.instanceScript here
      have placed := placed_script (.inr found)
      simp [spared_append, spared_nil, (copies block here).2,
        spares_script refilled (.inr found) placed.openTag,
        spares_script refilled (.inr found) placed.closeTag]
  · rw [reads.fragment]
    exact spared_template refilled

/-- The component is read with the same results. -/
theorem Reads.refilled_reads : (parts.moved (content.displace new.utf8ByteSize)
    (parse (splice source content new)).document.fragment).Reads (splice source content new) := by
  apply reads.moved refilled.accepted refilled.moduleScript refilled.instanceScript
  · intro script kept
    exact text_refilled refilled (spares_script refilled kept (placed_script kept).content)
  · have slots := reads.slots
    rw [reads.fragment] at slots
    exact slotsOf_moved (elements_refilled refilled) slots

private theorem Reads.mentions_refilled : templateMentions propsName
    (parse (splice source content new)).document.fragment =
      templateMentions propsName parts.fragment := by
  rw [reads.fragment]
  exact Component.mentions_refilled refilled propsName

/-- So the module is made of the same pieces. -/
theorem Reads.pieces_refilled : (parts.moved (content.displace new.utf8ByteSize)
    (parse (splice source content new)).document.fragment).pieces (splice source content new) =
      (parts.pieces source).map (Piece.moved (content.displace new.utf8ByteSize)) := by
  apply pieces_moved (reads.mentions_refilled refilled)
  · rw [reads.fragment]
    exact template_refilled refilled
  · intro block here
    have found := reads.instanceScript here
    have spares := spares_script refilled (.inr found) (placed_script (.inr found)).content
    refine ⟨fun n inside => spares.carries inside, fun item member => ?_⟩
    obtain ⟨start, stop, declaration⟩ := reads.cutsAt here member
    exact ⟨start.2, stop.2, fun begin declared kind => (declaration begin declared kind).2⟩

end

end Parts

/-- Texts, comments and styles do nothing. In every component that is accepted, any of them can be
given other content: the component is accepted again and becomes the same module, with the same
properties and slots. Only the offsets in the source map differ: what stood behind the content is
displaced by the difference in size, and nothing that the module was mapped to stood in it. -/
theorem transpile_refilled {source new : String} {t : Transpiled} {filler : Filler}
    (made : transpile source = .ok t) (member : filler ∈ (parse source).document.fillers)
    (admits : filler.Admits new) :
    transpile (splice source filler.content new) =
        .ok { t with sourceMap := t.sourceMap.moved (filler.content.displace new.utf8ByteSize) } ∧
      ∀ m ∈ t.sourceMap.mappings, filler.content.Spares m.original := by
  obtain ⟨parts, reads, code, sourceMap, props, slots, usesProps⟩ := transpile_eq_ok made
  obtain ⟨hole, refilled⟩ := refilled_of_admits reads.errors member admits
  have spared := reads.spared refilled
  have keep : ∀ piece ∈ parts.pieces source, piece.KeepsText source
      (splice source filler.content new) (filler.content.displace new.utf8ByteSize) := by
    intro piece inPieces
    cases piece with
    | fresh text | replaced s text => trivial
    | copied s => exact text_refilled refilled (spared _ inPieces s rfl)
  obtain ⟨sameCode, sameMap⟩ := Draft.ofPieces_moved keep
  constructor
  · have again := (reads.refilled_reads refilled).transpile
    rw [reads.pieces_refilled refilled, sameCode, sameMap,
      Parts.usesProps_moved (reads.mentions_refilled refilled), ← code, ← sourceMap,
      ← usesProps] at again
    rw [again, slots, props]
    rfl
  · intro m inMap
    rw [sourceMap, Draft.sourceMap, Draft.mappings_ofPieces] at inMap
    obtain ⟨piece, inPieces, mapped⟩ := Draft.original_of_laid inMap
    unfold Piece.mapped? at mapped
    split at mapped
    · cases mapped
    · exact spared piece inPieces m.original mapped

/-- A comment that comes to look like an expression. -/
theorem transpile_refilled_comment :
    let source := "<!--a-->\x7bb\x7d"
    let comment : Filler := .comment ⟨⟨0, 8⟩, "a"⟩
    ∃ t, transpile source = .ok t ∧ comment ∈ (parse source).document.fillers ∧
      comment.Admits "\x7bc\x7d" ∧
      transpile "<!--\x7bc\x7d-->\x7bb\x7d" =
        .ok { t with sourceMap := t.sourceMap.moved (comment.content.displace 3) } := by
  intro source comment
  have accepted : (transpile source).toOption.any (fun _ => true) = true := by decide +kernel
  obtain ⟨t, made, _⟩ := exists_ok_of_check accepted
  have member : comment ∈ (parse source).document.fillers := by decide +kernel
  have admits : comment.Admits "\x7bc\x7d" := by
    change ¬"-->".toList <:+: "\x7bc\x7d".toList
    decide +kernel
  have spliced : splice source comment.content "\x7bc\x7d" = "<!--\x7bc\x7d-->\x7bb\x7d" := by
    decide +kernel
  have same := (transpile_refilled made member admits).1
  rw [spliced] at same
  exact ⟨t, made, member, admits, same⟩

end Component

end TypedSvelte
