import TypedSvelte.Proofs.Component.Acceptance
import TypedSvelte.Proofs.Component.Replacements
import TypedSvelte.Proofs.Component.TemplatePlaces
import TypedSvelte.Proofs.Position.MappingOrigin
import TypedSvelte.Proofs.Position.Remainder
import TypedSvelte.Proofs.Position.RoundTrip

/-!
# The instance script in its module

Imports are copied by one loop and the rest of the script by another, which carries a cursor past
what it leaves out. `remains_bodyPieces` is the invariant of the second loop. With the imports it
covers the content but for what is dropped (`instance_script_conserved`), because every other
mapping of the module stands for something outside of the content (`Foreign`).
-/
namespace TypedSvelte

namespace Script

/-- The imports, counted from a place `base` bytes further left. -/
def Outline.imports (outline : Outline) (base : Nat) : List Span :=
  (outline.items.filterMap Item.imported?).map (·.shift base)

/-- What is dropped, counted from a place `base` bytes further left. -/
def Outline.dropped (outline : Outline) (base : Nat) : List Span :=
  (outline.items.filterMap Item.dropped?).map (·.shift base)

/-- The items lie in the text one after the other, and an exported declaration ends its item. All
offsets are on character boundaries. -/
structure Outline.Placed (text : String) (outline : Outline) : Prop where
  cuts : ∀ item ∈ outline.items, IsCut text item.span.start ∧ IsCut text item.span.stop
  forward : ∀ item ∈ outline.items, item.span.start ≤ item.span.stop
  ordered : outline.items.Pairwise fun a b => a.span.stop ≤ b.span.start
  suffixes : ∀ item ∈ outline.items, ∀ range ∈ item.dropped?,
    IsCut text range.stop ∧ range.start ≤ range.stop ∧ range.stop ≤ item.span.stop

instance (text : String) (outline : Outline) : Decidable (outline.Placed text) :=
  decidable_of_iff
    ((∀ item ∈ outline.items, IsCut text item.span.start ∧ IsCut text item.span.stop) ∧
      (∀ item ∈ outline.items, item.span.start ≤ item.span.stop) ∧
      (outline.items.Pairwise fun a b => a.span.stop ≤ b.span.start) ∧
      ∀ item ∈ outline.items, ∀ range ∈ item.dropped?,
        IsCut text range.stop ∧ range.start ≤ range.stop ∧ range.stop ≤ item.span.stop)
    ⟨fun ⟨cuts, forward, ordered, suffixes⟩ => ⟨cuts, forward, ordered, suffixes⟩,
      fun ⟨cuts, forward, ordered, suffixes⟩ => ⟨cuts, forward, ordered, suffixes⟩⟩

end Script

namespace Component

open Markup Script

/-- The item and what is left out of it lie in the source before byte `stop`. -/
structure ScriptBlock.Seated (source : String) (block : ScriptBlock) (stop : Nat) (item : Item) :
    Prop where
  startCut : IsCut source (block.place item).start
  stopCut : IsCut source (block.place item).stop
  forward : (block.place item).start ≤ (block.place item).stop
  fits : (block.place item).stop ≤ stop
  gap : ∀ gap, block.gap? item = some gap → gap.start = (block.place item).start ∧
    gap.start ≤ gap.stop ∧ gap.stop ≤ (block.place item).stop ∧ IsCut source gap.stop

section

variable {source : String} {block : ScriptBlock} {stop : Nat}

theorem seated_of_placed (content : slice? source block.base stop = some block.source)
    (placed : block.outline.Placed block.source) {item : Item}
    (member : item ∈ block.outline.items) : block.Seated source stop item := by
  have size := stop_of_slice? content
  obtain ⟨startCut, stopCut⟩ := placed.cuts item member
  have forward := placed.forward item member
  have bound := stopCut.le
  have start := startCut.of_slice? content
  have last := stopCut.of_slice? content
  rw [Nat.add_comm] at start last
  refine ⟨start, last, Nat.add_le_add_right forward _, ?_, ?_⟩
  · change item.span.stop + block.base ≤ stop
    omega
  · intro gap found
    obtain ⟨range, isRange, rfl⟩ := Option.map_eq_some_iff.1 found
    have inItem : range.start = item.span.start ∧ range.start ≤ range.stop ∧
        range.stop ≤ item.span.stop ∧ IsCut block.source range.stop := by
      rcases Option.or_eq_some_iff.1 isRange with imported | ⟨_, dropped⟩
      · rw [Item.span_of_imported? imported]
        exact ⟨rfl, forward, Nat.le_refl _, stopCut⟩
      · obtain ⟨cut, ordered, ends⟩ := placed.suffixes item member range dropped
        exact ⟨Item.start_of_dropped? dropped, ordered, ends, cut⟩
    obtain ⟨begins, ordered, ends, cut⟩ := inItem
    have shifted := cut.of_slice? content
    rw [Nat.add_comm] at shifted
    exact ⟨congrArg (· + block.base) begins, Nat.add_le_add_right ordered _,
      Nat.add_le_add_right ends _, shifted⟩

private theorem filterMap_cons_eq {α β : Type} (f : α → Option β) (x : α) (xs : List α) :
    (x :: xs).filterMap f = (f x).toList ++ xs.filterMap f := by
  rw [List.filterMap_cons]
  cases f x <;> rfl

/-- What the copies from `cursor` on are mapped to is what remains without the gaps of the items. -/
theorem remains_bodyPieces (isDeclared : String → Bool) {items : List Item}
    (seated : ∀ item ∈ items, block.Seated source stop item)
    (ordered : items.Pairwise fun a b => (block.place a).stop ≤ (block.place b).start)
    {cursor : Nat} (here : IsCut source cursor) (last : IsCut source stop) (fits : cursor ≤ stop)
    (before : ∀ item ∈ items, cursor ≤ (block.place item).start) (forward : List String) :
    Remains cursor stop (items.filterMap block.gap?)
      ((bodyPieces block isDeclared stop cursor forward items).filterMap (·.mapped? source)) := by
  induction items generalizing cursor forward with
  | nil =>
    rw [bodyPieces, filterMap_cons_eq, mapped?_of_cuts here last fits]
    exact (List.append_nil _).symm ▸ Remains.done cursor stop
  | cons item rest ih =>
    obtain ⟨atItem, restSeated⟩ := List.forall_mem_cons.1 seated
    obtain ⟨toItem, restBefore⟩ := List.forall_mem_cons.1 before
    obtain ⟨later, restOrdered⟩ := List.pairwise_cons.1 ordered
    have copied := mapped?_of_cuts here atItem.startCut toItem
    -- From a cursor in the item, the rest is copied as the induction says.
    have resume {next : Nat} (cut : IsCut source next) (inside : next ≤ (block.place item).stop)
        (forward : List String) :=
      ih restSeated restOrdered cut (Nat.le_trans inside atItem.fits)
        (fun other member => Nat.le_trans inside (later other member)) forward
    obtain ⟨step, next, forward', steps, same⟩ :=
      block.steps_bodyPieces isDeclared stop cursor forward item rest
    rw [same, List.filterMap_append, filterMap_cons_eq]
    cases steps with
    | @skip gap found =>
      obtain ⟨begins, ordered, ends, cut⟩ := atItem.gap gap found
      rw [filterMap_cons_eq, copied, found, ← begins, List.filterMap_nil, List.append_nil]
      exact (resume cut ends forward').step (begins ▸ toItem) ordered
        (Nat.le_trans ends atItem.fits)
    | pass unfound =>
      rw [unfound]
      exact ih restSeated restOrdered here fits restBefore forward'
    | declare unfound text =>
      have later := resume atItem.startCut atItem.forward forward'
      have split : Remains cursor stop (⟨(block.place item).start, (block.place item).start⟩ ::
          rest.filterMap block.gap?) _ :=
        later.step toItem (Nat.le_refl _) (Nat.le_trans atItem.forward atItem.fits)
      rw [filterMap_cons_eq, filterMap_cons_eq, copied, unfound, Piece.mapped?_fresh,
        List.filterMap_nil, Option.toList_none, List.append_nil, List.append_nil]
      exact split.of_cons_empty

private theorem inside_of_imported
    (seated : ∀ item ∈ block.outline.items, block.Seated source block.script.contentSpan.stop item)
    {s : Span} (imported : s ∈ block.outline.imports block.base) :
    s.Inside block.script.contentSpan := by
  obtain ⟨range, found, rfl⟩ := List.mem_map.1 imported
  obtain ⟨item, isItem, isImport⟩ := List.mem_filterMap.1 found
  rw [Item.span_of_imported? isImport]
  exact ⟨Nat.le_add_left _ _, (seated item isItem).fits⟩

private theorem mapped_importPieces (seated : ∀ item ∈ block.outline.items, block.Seated source stop item) :
    (importPieces block).filterMap (·.mapped? source) =
      (block.outline.imports block.base).filter fun s => s.start < s.stop := by
  unfold importPieces Outline.imports
  generalize block.outline.items = items at seated
  induction items with
  | nil => rfl
  | cons item rest ih =>
    obtain ⟨atItem, restSeated⟩ := List.forall_mem_cons.1 seated
    rw [List.flatMap_cons, List.filterMap_append, ih restSeated, filterMap_cons_eq, List.map_append,
      List.filter_append]
    congr 1
    cases kind : item.kind with
    | imports locals =>
      have copied := mapped?_of_cuts atItem.startCut atItem.stopCut atItem.forward
      simp only [Item.imported?, kind, filterMap_cons_eq, Piece.mapped?_fresh, List.filterMap_nil,
        Option.toList_none, Option.toList_some, List.append_nil, List.map_singleton]
      exact copied.trans (stretch_eq_filter _)
    | _ =>
      simp only [Item.imported?, kind]
      rfl

end

section

variable {block : ScriptBlock} {o : Nat}

private theorem imported_or_dropped (item : Item) : item.imported? = none ∨ item.dropped? = none := by
  unfold Item.imported? Item.dropped?
  cases item.kind with
  | imports locals => exact Or.inr rfl
  | _ => exact Or.inl rfl

/-- What the loop leaves out is imported or dropped. -/
theorem mem_gaps_iff {gap : Span} : gap ∈ block.outline.items.filterMap block.gap? ↔
    gap ∈ block.outline.imports block.base ∨ gap ∈ block.outline.dropped block.base := by
  constructor
  · intro member
    obtain ⟨item, isItem, found⟩ := List.mem_filterMap.1 member
    obtain ⟨range, isRange, rfl⟩ := Option.map_eq_some_iff.1 found
    rcases Option.or_eq_some_iff.1 isRange with imported | ⟨_, dropped⟩
    · exact Or.inl (List.mem_map_of_mem (List.mem_filterMap.2 ⟨item, isItem, imported⟩))
    · exact Or.inr (List.mem_map_of_mem (List.mem_filterMap.2 ⟨item, isItem, dropped⟩))
  · have leftOut {range : Span} {item : Item} (isItem : item ∈ block.outline.items)
        (found : item.imported?.or item.dropped? = some range) :
        range.shift block.base ∈ block.outline.items.filterMap block.gap? := by
      refine List.mem_filterMap.2 ⟨item, isItem, ?_⟩
      rw [ScriptBlock.gap?, found]
      rfl
    rintro (imported | dropped)
    · obtain ⟨range, found, rfl⟩ := List.mem_map.1 imported
      obtain ⟨item, isItem, isImport⟩ := List.mem_filterMap.1 found
      exact leftOut isItem (by rw [isImport, Option.some_or])
    · obtain ⟨range, found, rfl⟩ := List.mem_map.1 dropped
      obtain ⟨item, isItem, isDrop⟩ := List.mem_filterMap.1 found
      rcases imported_or_dropped item with notImported | notDropped
      · exact leftOut isItem (by rw [notImported, Option.none_or, isDrop])
      · rw [notDropped] at isDrop
        cases isDrop

/-- No byte is imported and dropped. -/
theorem not_imported_and_dropped (placed : block.outline.Placed block.source) {s range : Span}
    (imported : s ∈ block.outline.imports block.base) (holds : s.contains o = true)
    (dropped : range ∈ block.outline.dropped block.base) : range.contains o = false := by
  obtain ⟨importSpan, foundImport, rfl⟩ := List.mem_map.1 imported
  obtain ⟨item, isItem, isImport⟩ := List.mem_filterMap.1 foundImport
  obtain ⟨dropSpan, foundDrop, rfl⟩ := List.mem_map.1 dropped
  obtain ⟨other, isOther, isDrop⟩ := List.mem_filterMap.1 foundDrop
  rw [Bool.eq_false_iff]
  intro dropHolds
  have range := ((importSpan.shift block.base).contains_iff o).1 holds
  have dropRange := ((dropSpan.shift block.base).contains_iff o).1 dropHolds
  simp only [Span.shift] at range dropRange
  have inItem : item.span.contains (o - block.base) = true := by
    rw [Item.span_of_imported? isImport] at range
    exact (item.span.contains_iff _).2 (by omega)
  have inOther : other.span.contains (o - block.base) = true := by
    have ends := (placed.suffixes other isOther dropSpan isDrop).2.2
    have begins := Item.start_of_dropped? isDrop
    exact (other.span.contains_iff _).2 (by omega)
  have same := eq_of_contains (·.span) placed.ordered isItem inItem isOther inOther
  subst same
  rcases imported_or_dropped other with notImported | notDropped
  · rw [notImported] at isImport
    cases isImport
  · rw [notDropped] at isDrop
    cases isDrop

end

/-- The span covers something outside of the content and nothing inside. -/
def Foreign (content s : Span) : Prop :=
  s.start < content.start ∧ s.stop ≤ content.start ∨ content.stop ≤ s.start ∧ content.stop < s.stop

private theorem Foreign.not_inside {content s : Span} (foreign : Foreign content s) :
    ¬ s.Inside content := by
  rintro ⟨low, high⟩
  rcases foreign with ⟨before, _⟩ | ⟨_, behind⟩
  · omega
  · omega

private theorem Foreign.not_contains {content s : Span} (foreign : Foreign content s) {o : Nat}
    (inContent : content.contains o = true) : s.contains o = false := by
  rw [Bool.eq_false_iff]
  intro holds
  have range := (s.contains_iff o).1 holds
  have contentRange := (content.contains_iff o).1 inContent
  rcases foreign with ⟨_, before⟩ | ⟨behind, _⟩
  · omega
  · omega

private theorem start_lt_of_mapped {source : String} {span s : Span}
    (mapped : (Piece.copied span).mapped? source = some s) : s = span ∧ span.start < span.stop := by
  rw [Piece.mapped?_copied] at mapped
  split at mapped
  · cases mapped
  · rename_i covers
    have size := stop_of_slice? (slice?_of_text_ne covers)
    have filled : (span.text source).utf8ByteSize ≠ 0 :=
      fun zero => covers (String.utf8ByteSize_eq_zero_iff.1 zero)
    exact ⟨(Option.some.inj mapped).symm, by omega⟩

/-- The mappings that stand for parts of the content. -/
def within (content : Span) (mappings : List Mapping) : List Mapping :=
  mappings.filter fun m => m.original.Inside content

private theorem mem_within {content : Span} {mappings : List Mapping} {m : Mapping} :
    m ∈ within content mappings ↔ m ∈ mappings ∧ m.original.Inside content := by
  simp [within]

private theorem originals_within (source : String) (content : Span) (offset : Nat) (pieces : List Piece) :
    (within content (Draft.laid source offset pieces)).map (·.original) =
      (pieces.filterMap (·.mapped? source)).filter (·.Inside content) := by
  rw [← Draft.originals_laid offset pieces, List.filter_map]
  rfl

theorem within_append (content : Span) (first second : List Mapping) :
    within content (first ++ second) = within content first ++ within content second :=
  List.filter_append ..

/-- A module that keeps the content of an instance script: no byte of it is copied twice, and only
what is dropped is not copied. -/
structure Conserves (source code : String) (map : SourceMap) (script : Markup.Script)
    (outline : Outline) : Prop where
  /-- What is mapped is copied. -/
  copied : ∀ m ∈ within script.contentSpan map.mappings, m.original.start < m.original.stop →
    ∃ text, slice? code m.generated.start m.generated.stop = some text ∧
      slice? source m.original.start m.original.stop = some text
  /-- No byte is mapped twice. -/
  apart : (within script.contentSpan map.mappings).Pairwise fun a b => a.original.Apart b.original
  /-- The bytes mapped are those of the content that are not dropped. -/
  covered : ∀ o, (∃ m ∈ within script.contentSpan map.mappings, m.original.contains o = true) ↔
    script.contentSpan.contains o = true ∧
      ¬ ∃ range ∈ outline.dropped script.contentSpan.start, range.contains o = true
  /-- The imports come before the header of `render`, which stands for the opening tag, and all else
  comes after it, both in the order of the source. -/
  arranged : ∃ before header after, map.mappings = before ++ header :: after ∧
    header.original = script.openTag ∧
    (within script.contentSpan before).map (·.original) =
      (outline.imports script.contentSpan.start).filter (fun s => s.start < s.stop) ∧
    (within script.contentSpan after).Pairwise fun a b =>
      a.original.stop ≤ b.original.start ∧ a.generated.stop ≤ b.generated.start
  /-- Exactly the bytes that are dropped cannot be found in the module. -/
  lost : ∀ o, script.contentSpan.contains o = true → (map.generatedPosition? o = none ↔
    ∃ range ∈ outline.dropped script.contentSpan.start, range.contains o = true)

section

variable {source : String} {parts : Parts} {block : ScriptBlock}

/-- What lies beside a script lies outside of its content. -/
theorem foreign_of_apart {script : Markup.Script} (stands : script.Stands source.toList) {s : Span}
    (filled : s.start < s.stop) (apart : s.Apart script.extent) : Foreign script.contentSpan s := by
  obtain ⟨tagFilled, toContent, closes, closed, _⟩ := stands.order
  rcases apart with before | behind
  · change s.stop ≤ script.openTag.start at before
    exact Or.inl (by omega)
  · change script.closeTag.stop ≤ s.start at behind
    exact Or.inr (by omega)

/-- So do the content and the closing tag of another script, even if they are empty. -/
theorem foreign_of_other {script other : Markup.Script} (stands : script.Stands source.toList)
    (otherStands : other.Stands source.toList) (apart : other.extent.Apart script.extent) {s : Span}
    (low : other.openTag.stop ≤ s.start) (ordered : s.start ≤ s.stop)
    (high : s.stop ≤ other.closeTag.stop) : Foreign script.contentSpan s := by
  obtain ⟨tagFilled, toContent, closes, closed, _⟩ := stands.order
  obtain ⟨otherFilled, _⟩ := otherStands.order
  rcases apart with before | behind
  · change other.closeTag.stop ≤ script.openTag.start at before
    exact Or.inl (by omega)
  · change script.closeTag.stop ≤ other.openTag.start at behind
    exact Or.inr (by omega)

namespace Parts

/-- The module script is mapped outside of the content of the instance script. -/
theorem Reads.foreign_module (reads : parts.Reads source) (here : parts.instanceBlock = some block)
    {piece : Piece} {s : Span} (member : piece ∈ (parts.moduleBlock.map modulePieces).getD [])
    (mapped : piece.mapped? source = some s) : Foreign block.script.contentSpan s := by
  cases isModule : parts.moduleBlock with
  | none =>
    rw [isModule] at member
    cases member
  | some other =>
    rw [isModule] at member
    have stands := reads.stands (Or.inr here)
    have otherStands := reads.stands (Or.inl isModule)
    have apart := apart_scripts (reads.moduleScript isModule) (reads.instanceScript here)
    obtain ⟨_, toContent, closes, closed, slice⟩ := otherStands.order
    have size := stop_of_slice? slice
    rcases List.mem_cons.1 member with rfl | last
    · obtain ⟨rfl, filled⟩ := start_lt_of_mapped mapped
      exact foreign_of_other stands otherStands apart (by omega) (by omega) (by omega)
    · cases List.mem_singleton.1 last
      cases Option.some.inj ((Piece.mapped?_replaced (by decide)).symm.trans mapped)
      exact foreign_of_other stands otherStands apart (by omega) (by omega) (by omega)

private theorem Reads.foreign_template (reads : parts.Reads source)
    (here : parts.instanceBlock = some block) {piece : Piece} {s : Span}
    (member : piece ∈ templatePieces source parts.fragment)
    (mapped : piece.mapped? source = some s) : Foreign block.script.contentSpan s := by
  rw [reads.fragment] at member
  have quoted := quotes_template_apart (Or.inr (reads.instanceScript here)) piece member
  cases piece with
  | fresh text =>
    rw [Piece.mapped?_fresh] at mapped
    cases mapped
  | copied span =>
    obtain ⟨rfl, filled⟩ := start_lt_of_mapped mapped
    exact foreign_of_apart (reads.stands (Or.inr here)) filled quoted
  | replaced span text => cases quoted

/-- What comes before the function `render`. -/
def before (parts : Parts) (block : ScriptBlock) : List Piece :=
  importPieces block ++ (parts.moduleBlock.map modulePieces).getD []

/-- What comes after the header of `render`. -/
def after (source : String) (parts : Parts) (block : ScriptBlock) : List Piece :=
  instancePieces block parts.isDeclared ++ .replaced block.script.closeTag ";\n" ::
    (templatePieces source parts.fragment ++ [.fresh parts.footer])

private theorem pieces_eq (here : parts.instanceBlock = some block) : parts.pieces source =
    parts.before block ++
      .replaced block.script.openTag parts.header :: parts.after source block := by
  simp [pieces, renderPieces, here, before, after]

private theorem header_ne_empty (parts : Parts) : parts.header ≠ "" := by
  intro empty
  have size := parts.size_header
  rw [empty, String.utf8ByteSize_empty] at size
  split at size
  · cases size
  · cases size

/-- The statement that the template becomes. -/
def templateStatement (parts : Parts) (source : String) : String :=
  "(() => \x7b\n" ++ String.ofList (Draft.emittedChars source (nodesPieces source parts.fragment))
    ++ "\x7d);"

/-- What stands in the module for the instance script and its tags, and for the template. -/
theorem emits_instance (here : parts.instanceBlock = some block) {text : String}
    (body : Draft.emittedChars source (instancePieces block parts.isDeclared) = text.toList) :
    ∃ before,
      (Draft.ofPieces source (parts.pieces source)).code =
        before ++ parts.header ++ text ++ ";\n"
          ++ (parts.templateStatement source ++ "\n" ++ parts.footer) ∧
      ⟨⟨before.utf8ByteSize, (before ++ parts.header).utf8ByteSize⟩, block.script.openTag⟩ ∈
        (Draft.ofPieces source (parts.pieces source)).sourceMap.mappings ∧
      ⟨⟨(before ++ parts.header ++ text).utf8ByteSize,
        (before ++ parts.header ++ text ++ ";\n").utf8ByteSize⟩, block.script.closeTag⟩ ∈
        (Draft.ofPieces source (parts.pieces source)).sourceMap.mappings := by
  let lead := parts.before block
  let start := lead ++ .replaced block.script.openTag parts.header ::
    instancePieces block parts.isDeclared
  let last := nodesPieces source parts.fragment ++ [.fresh "\x7d);\n", .fresh parts.footer]
  have whole : parts.pieces source =
      lead ++ .replaced block.script.openTag parts.header :: parts.after source block := pieces_eq here
  have split : parts.pieces source =
      start ++ .replaced block.script.closeTag ";\n" :: .fresh "(() => \x7b\n" :: last := by
    simp [whole, start, last, after, templatePieces]
  have opened := Draft.mem_laid_replaced source lead (parts.after source block)
    block.script.openTag parts.header_ne_empty
  have closed := Draft.mem_laid_replaced source start (.fresh "(() => \x7b\n" :: last)
    block.script.closeTag (show ";\n" ≠ "" by decide)
  rw [← whole, ← Draft.mappings_ofPieces] at opened
  rw [← split, ← Draft.mappings_ofPieces] at closed
  have sizeLead : byteSize (Draft.emittedChars source lead) =
      (String.ofList (Draft.emittedChars source lead)).utf8ByteSize :=
    (utf8ByteSize_ofList _).symm
  have emittedStart : Draft.emittedChars source start =
      (String.ofList (Draft.emittedChars source lead) ++ parts.header ++ text).toList := by
    simp [start, Piece.emitted, body]
  rw [sizeLead, ← String.utf8ByteSize_append] at opened
  rw [emittedStart, byteSize_toList, ← String.utf8ByteSize_append] at closed
  refine ⟨_, ?_, opened, closed⟩
  rw [← String.toList_inj, Draft.toList_code_ofPieces, split, Draft.emittedChars_append,
    emittedStart]
  simp [Piece.emitted, templateStatement, last]

/-- What the mappings before the header of `render` stand for. -/
theorem Reads.originals_before (reads : parts.Reads source)
    (here : parts.instanceBlock = some block)
    (seated : ∀ item ∈ block.outline.items, block.Seated source block.script.contentSpan.stop item) :
    ((parts.before block).filterMap (·.mapped? source)).filter
        (·.Inside block.script.contentSpan) =
      (block.outline.imports block.base).filter fun s => s.start < s.stop := by
  have module : (((parts.moduleBlock.map modulePieces).getD []).filterMap
      (·.mapped? source)).filter (·.Inside block.script.contentSpan) = [] := by
    apply List.filter_eq_nil_iff.2
    intro s found inside
    obtain ⟨piece, member, mapped⟩ := List.mem_filterMap.1 found
    exact (reads.foreign_module here member mapped).not_inside (of_decide_eq_true inside)
  rw [before, List.filterMap_append, List.filter_append, module, List.append_nil,
    mapped_importPieces seated]
  refine List.filter_eq_self.2 fun s member => decide_eq_true ?_
  exact inside_of_imported seated (List.mem_filter.1 member).1

/-- What the mappings after the header stand for: what remains of the content, and the closing tag
if it is empty. -/
theorem Reads.originals_after (reads : parts.Reads source)
    (here : parts.instanceBlock = some block) {gaps : List Span}
    (remains : Remains block.script.contentSpan.start block.script.contentSpan.stop gaps
      ((instancePieces block parts.isDeclared).filterMap (·.mapped? source))) :
    Remains block.script.contentSpan.start block.script.contentSpan.stop gaps
      (((parts.after source block).filterMap (·.mapped? source)).filter
        (·.Inside block.script.contentSpan)) := by
  obtain ⟨_, _, closes, closed, slice⟩ := (reads.stands (Or.inr here)).order
  have size := stop_of_slice? slice
  have kept : ((instancePieces block parts.isDeclared).filterMap
      (·.mapped? source)).filter (·.Inside block.script.contentSpan) =
        (instancePieces block parts.isDeclared).filterMap (·.mapped? source) := by
    refine List.filter_eq_self.2 fun s member => decide_eq_true ?_
    obtain ⟨low, _, high⟩ := remains.kept_within s member
    exact ⟨low, high⟩
  have template : ((templatePieces source parts.fragment).filterMap
      (·.mapped? source)).filter (·.Inside block.script.contentSpan) = [] := by
    apply List.filter_eq_nil_iff.2
    intro s found isInside
    obtain ⟨piece, member, mapped⟩ := List.mem_filterMap.1 found
    exact (reads.foreign_template here member mapped).not_inside (of_decide_eq_true isInside)
  have separator : (Piece.replaced block.script.closeTag ";\n").mapped? source =
      some block.script.closeTag := Piece.mapped?_replaced (by decide)
  simp only [after, List.filterMap_append, filterMap_cons_eq, separator, Piece.mapped?_fresh,
    Option.toList_some, Option.toList_none, List.filterMap_nil, List.append_nil,
    List.filter_append, template, kept]
  by_cases inside : block.script.closeTag.Inside block.script.contentSpan
  · have high : block.script.closeTag.stop ≤ block.script.contentSpan.stop := inside.2
    have stop : block.script.closeTag.stop = block.script.contentSpan.stop := by omega
    have empty : block.script.closeTag =
        ⟨block.script.contentSpan.stop, block.script.contentSpan.stop⟩ :=
      congrArg₂ Span.mk closes stop
    have only : [block.script.closeTag].filter (·.Inside block.script.contentSpan) =
        [block.script.closeTag] := List.filter_eq_self.2 (by simpa using inside)
    rw [only, empty]
    exact remains.append_end (by omega)
  · have none_ : [block.script.closeTag].filter (·.Inside block.script.contentSpan) = [] :=
      List.filter_eq_nil_iff.2 (by simpa using inside)
    rw [none_, List.append_nil]
    exact remains

end Parts

end

section

variable {source : String} {parts : Parts} {block : ScriptBlock}

/-- The mappings that lie in a content, with a header between them that does not. -/
theorem within_split {content : Span} {before after : List Mapping} {header : Mapping}
    (outside : ¬ header.original.Inside content) :
    within content (before ++ header :: after) = within content before ++ within content after := by
  rw [within_append]
  congr 1
  exact List.filter_cons_of_neg (by simpa using outside)

/-- The imports and what remains without them keep apart. -/
theorem pairwise_apart (placed : block.outline.Placed block.source) {low high : Nat}
    {kept : List Span}
    (remains : Remains low high (block.outline.items.filterMap block.gap?) kept) :
    (((block.outline.imports block.base).filter fun s => s.start < s.stop) ++ kept).Pairwise
      Span.Apart := by
  refine List.pairwise_append.2 ⟨?_, remains.ordered.imp Or.inl, ?_⟩
  · refine List.Pairwise.filter _ (List.pairwise_map.2 (List.pairwise_filterMap.2 ?_))
    refine placed.ordered.imp ?_
    intro a b ordered s isImport t isLater
    rw [Item.span_of_imported? isImport, Item.span_of_imported? isLater]
    exact Or.inl (Nat.add_le_add_right ordered _)
  · intro s imported t isKept
    have isGap := mem_gaps_iff.2 (Or.inl (List.mem_filter.1 imported).1)
    exact (remains.clear t isKept s isGap).symm

/-- The imports and what remains without them have the bytes that are not dropped. -/
theorem exists_contains_iff_not_dropped (placed : block.outline.Placed block.source)
    {low high o : Nat} {kept : List Span}
    (remains : Remains low high (block.outline.items.filterMap block.gap?) kept)
    (above : low ≤ o) (below : o < high) :
    (∃ s ∈ ((block.outline.imports block.base).filter fun s => s.start < s.stop) ++ kept,
      s.contains o = true) ↔
        ¬ ∃ range ∈ block.outline.dropped block.base, range.contains o = true := by
  constructor
  · rintro ⟨s, member, holds⟩ ⟨range, isDropped, dropped⟩
    rcases List.mem_append.1 member with imported | isKept
    · rw [not_imported_and_dropped placed (List.mem_filter.1 imported).1 holds isDropped] at dropped
      cases dropped
    · have outside := (remains.exists_contains_iff above below).1 ⟨s, isKept, holds⟩
      exact outside ⟨range, mem_gaps_iff.2 (Or.inr isDropped), dropped⟩
  · intro notDropped
    by_cases imported : ∃ s ∈ block.outline.imports block.base, s.contains o = true
    · obtain ⟨s, member, holds⟩ := imported
      have range := (s.contains_iff o).1 holds
      have filled : decide (s.start < s.stop) = true := decide_eq_true (by omega)
      exact ⟨s, List.mem_append_left _ (List.mem_filter.2 ⟨member, filled⟩), holds⟩
    · obtain ⟨s, isKept, holds⟩ := (remains.exists_contains_iff above below).2 (by
        rintro ⟨gap, isGap, inGap⟩
        rcases mem_gaps_iff.1 isGap with isImport | isDropped
        · exact imported ⟨gap, isImport, inGap⟩
        · exact notDropped ⟨gap, isDropped, inGap⟩)
      exact ⟨s, List.mem_append_right _ isKept, holds⟩

/-- Mappings for the imports and for what remains without them cover what is not dropped. -/
theorem covered_iff_of_originals (placed : block.outline.Placed block.source) {content : Span}
    {kept : List Span}
    (remains : Remains content.start content.stop (block.outline.items.filterMap block.gap?) kept)
    {mappings : List Mapping} (originals : (within content mappings).map (·.original) =
      ((block.outline.imports block.base).filter fun s => s.start < s.stop) ++ kept) (o : Nat) :
    (∃ m ∈ within content mappings, m.original.contains o = true) ↔
      content.contains o = true ∧
        ¬ ∃ range ∈ block.outline.dropped block.base, range.contains o = true := by
  constructor
  · rintro ⟨m, member, holds⟩
    obtain ⟨low, high⟩ := (mem_within.1 member).2
    have range := (m.original.contains_iff o).1 holds
    have isOriginal := List.mem_map_of_mem (f := (·.original)) member
    rw [originals] at isOriginal
    refine ⟨(content.contains_iff o).2 (by omega), ?_⟩
    exact (exists_contains_iff_not_dropped placed remains (by omega) (by omega)).1
      ⟨_, isOriginal, holds⟩
  · rintro ⟨inContent, notDropped⟩
    have range := (content.contains_iff o).1 inContent
    obtain ⟨s, isOriginal, holds⟩ :=
      (exists_contains_iff_not_dropped placed remains range.1 range.2).2 notDropped
    rw [← originals] at isOriginal
    obtain ⟨m, member, rfl⟩ := List.mem_map.1 isOriginal
    exact ⟨m, member, holds⟩

/-- A byte of the content that no mapping within the content covers is in none. -/
theorem lost_iff_of_covered {mappings : List Mapping} (ordered : SourceMap.Ordered mappings)
    {content : Span} {o : Nat} {dropped : Prop}
    (covered : (∃ m ∈ within content mappings, m.original.contains o = true) ↔
      content.contains o = true ∧ ¬ dropped)
    (inContent : content.contains o = true)
    (outside : ∀ m ∈ mappings, ¬ m.original.Inside content → m.original.contains o = false) :
    (SourceMap.mk mappings).generatedPosition? o = none ↔ dropped := by
  refine (SourceMap.generatedPosition?_eq_none_iff ordered o).trans ?_
  constructor
  · intro unmapped
    apply Classical.byContradiction
    intro notDropped
    obtain ⟨m, member, holds⟩ := covered.2 ⟨inContent, notDropped⟩
    rw [unmapped m (mem_within.1 member).1] at holds
    cases holds
  · intro isDropped m member
    by_cases inside : m.original.Inside content
    · rw [Bool.eq_false_iff]
      intro holds
      exact (covered.1 ⟨m, mem_within.2 ⟨member, inside⟩, holds⟩).2 isDropped
    · exact outside m member inside

namespace Parts

/-- A mapping of the module that covers something of the content is a copy. -/
theorem Reads.copied (reads : parts.Reads source) (here : parts.instanceBlock = some block)
    {m : Mapping} (member : m ∈ (Draft.ofPieces source (parts.pieces source)).mappings.toList)
    (inside : m.original.Inside block.script.contentSpan)
    (filled : m.original.start < m.original.stop) :
    ∃ text, slice? (Draft.ofPieces source (parts.pieces source)).code m.generated.start
        m.generated.stop = some text ∧
      slice? source m.original.start m.original.stop = some text := by
  obtain ⟨tagFilled, toContent, closes, closed, _⟩ := (reads.stands (Or.inr here)).order
  obtain ⟨low, high⟩ := inside
  obtain ⟨piece, makes⟩ := Draft.exists_makes member
  obtain ⟨stands, _, _⟩ := Draft.slice?_of_makes makes
  cases piece with
  | fresh text => cases stands
  | copied span =>
    obtain ⟨_, text, _, generated, original⟩ := Draft.copy_of_makes makes
    exact ⟨text, generated, original⟩
  | replaced span text =>
    have original : span = m.original := Option.some.inj stands
    cases replaces_of_mem (Draft.piece_mem_of_makes makes) with
    | @moduleEnd other isModule =>
      have last : Piece.replaced other.script.closeTag ";\n" ∈
          (parts.moduleBlock.map modulePieces).getD [] := by
        simp [isModule, modulePieces]
      have foreign := reads.foreign_module here last (Piece.mapped?_replaced (by decide))
      rw [original] at foreign
      exact absurd ⟨low, high⟩ foreign.not_inside
    | @header own isInstance =>
      cases Option.some.inj (isInstance.symm.trans here)
      rw [← original] at low
      omega
    | @instanceEnd own isInstance =>
      cases Option.some.inj (isInstance.symm.trans here)
      rw [← original] at filled high
      omega

/-- A mapping that does not lie in the content covers nothing of it. -/
theorem Reads.outside (reads : parts.Reads source) (here : parts.instanceBlock = some block)
    (seated : ∀ item ∈ block.outline.items, block.Seated source block.script.contentSpan.stop item)
    (kept : ∀ s ∈ (instancePieces block parts.isDeclared).filterMap (·.mapped? source),
      s.Inside block.script.contentSpan) {m : Mapping}
    (member : m ∈ (Draft.ofPieces source (parts.pieces source)).mappings.toList)
    (notInside : ¬ m.original.Inside block.script.contentSpan) {o : Nat}
    (inContent : block.script.contentSpan.contains o = true) : m.original.contains o = false := by
  obtain ⟨tagFilled, toContent, closes, closed, _⟩ := (reads.stands (Or.inr here)).order
  rw [Draft.mappings_ofPieces] at member
  obtain ⟨piece, isPiece, mapped⟩ := Draft.original_of_laid member
  rw [pieces_eq here] at isPiece
  rcases List.mem_append.1 isPiece with isBefore | isLater
  · rcases List.mem_append.1 isBefore with isImport | isModule
    · have isOriginal := List.mem_filterMap.2 ⟨piece, isImport, mapped⟩
      rw [mapped_importPieces seated] at isOriginal
      exact absurd (inside_of_imported seated (List.mem_filter.1 isOriginal).1) notInside
    · exact (reads.foreign_module here isModule mapped).not_contains inContent
  rcases List.mem_cons.1 isLater with rfl | isAfter
  · have original := Option.some.inj
      ((Piece.mapped?_replaced parts.header_ne_empty).symm.trans mapped)
    have foreign : Foreign block.script.contentSpan m.original := by
      rw [← original]
      exact Or.inl ⟨by omega, Nat.le_of_eq toContent⟩
    exact foreign.not_contains inContent
  rcases List.mem_append.1 isAfter with isBody | isEnd
  · exact absurd (kept _ (List.mem_filterMap.2 ⟨piece, isBody, mapped⟩)) notInside
  rcases List.mem_cons.1 isEnd with rfl | isTemplate
  · have original := Option.some.inj ((Piece.mapped?_replaced (by decide)).symm.trans mapped)
    have range := (Span.contains_iff _ o).1 inContent
    rw [← original, Bool.eq_false_iff]
    intro holds
    have := (Span.contains_iff _ o).1 holds
    omega
  · rcases List.mem_append.1 isTemplate with inTemplate | isFooter
    · exact (reads.foreign_template here inTemplate mapped).not_contains inContent
    · cases List.mem_singleton.1 isFooter
      rw [Piece.mapped?_fresh] at mapped
      cases mapped

/-- The module of a component that could be read keeps the content of the instance script. -/
theorem Reads.conserves (reads : parts.Reads source) (here : parts.instanceBlock = some block)
    (content : block.source = block.script.contentSpan.text source)
    (placed : block.outline.Placed block.source) :
    Conserves source (Draft.ofPieces source (parts.pieces source)).code
      (Draft.ofPieces source (parts.pieces source)).sourceMap block.script block.outline := by
  have stands := reads.stands (Or.inr here)
  obtain ⟨tagFilled, toContent, closes, closed, slice⟩ := stands.order
  rw [← content] at slice
  have size := stop_of_slice? slice
  obtain ⟨startCut, stopCut⟩ := cuts_of_slice? slice
  have seated : ∀ item ∈ block.outline.items,
      block.Seated source block.script.contentSpan.stop item :=
    fun item member => seated_of_placed slice placed member
  have ordered : block.outline.items.Pairwise fun a b =>
      (block.place a).stop ≤ (block.place b).start :=
    placed.ordered.imp fun apart => Nat.add_le_add_right apart _
  have body := remains_bodyPieces parts.isDeclared seated ordered startCut stopCut (by omega)
    (fun item _ => Nat.le_add_left _ _) []
  have kept : ∀ s ∈ (instancePieces block parts.isDeclared).filterMap (·.mapped? source),
      s.Inside block.script.contentSpan :=
    fun s member => ⟨(body.kept_within s member).1, (body.kept_within s member).2.2⟩
  have remains := reads.originals_after here body
  have isMapped : (Piece.replaced block.script.openTag parts.header).mapped? source =
      some block.script.openTag := Piece.mapped?_replaced parts.header_ne_empty
  obtain ⟨generated, stop, laid⟩ :=
    Draft.exists_laid_split 0 (parts.before block) (parts.after source block) isMapped
  rw [← pieces_eq here, ← Draft.mappings_ofPieces] at laid
  have outside : ¬ block.script.openTag.Inside block.script.contentSpan :=
    fun inside => absurd inside.1 (by omega)
  have first := (originals_within source block.script.contentSpan 0 (parts.before block)).trans
    (reads.originals_before here seated)
  rw [← originals_within source block.script.contentSpan stop] at remains
  have originals := congrArg (List.map (·.original)) (congrArg (within block.script.contentSpan) laid)
  rw [within_split outside, List.map_append, first] at originals
  have sound := Draft.sound_ofPieces source (parts.pieces source)
  have covered (o : Nat) := covered_iff_of_originals placed remains originals o
  refine ⟨?_, ?_, covered, ⟨_, _, _, laid, rfl, first, ?_⟩, ?_⟩
  · intro m member filled
    obtain ⟨inMap, inside⟩ := mem_within.1 member
    exact reads.copied here inMap inside filled
  · have apart := pairwise_apart placed remains
    rw [← originals] at apart
    exact List.pairwise_map.1 apart
  · have generatedApart := sound.ordered.apart
    rw [laid] at generatedApart
    have later := (List.pairwise_cons.1 (List.pairwise_append.1 generatedApart).2.1).2
    exact (List.pairwise_map.1 remains.ordered).and (later.filter _)
  · intro o inContent
    exact lost_iff_of_covered sound.ordered (covered o) inContent fun m member notInside =>
      reads.outside here seated kept member notInside inContent

end Parts

end

/-- No byte of an instance script is lost or duplicated. In every component that is accepted, the
module maps the content of the script without overlaps and leaves out export clauses and what comes
before exported declarations, nothing else; imports come before the header of `render`, and the rest
of the content comes after it in order. The outline need only have its items in place. -/
theorem instance_script_conserved {source : String} {t : Transpiled}
    (made : transpile source = .ok t) {script : Markup.Script}
    (found : (parse source).document.instanceScript = some script) {outline : Outline}
    (read : Script.parse (ScriptBlock.isTyped script) (script.contentSpan.text source) = .ok outline)
    (placed : outline.Placed (script.contentSpan.text source)) :
    Conserves source t.code t.sourceMap script outline := by
  obtain ⟨parts, reads, code, sourceMap, _⟩ := transpile_eq_ok made
  obtain ⟨block, here, one⟩ := reads.exists_instanceBlock found
  obtain ⟨rfl, content, parsed⟩ := ScriptBlock.of_ofScript one
  rw [content] at parsed
  cases Except.ok.inj (parsed.symm.trans read)
  rw [code, sourceMap]
  exact reads.conserves here content (content ▸ placed)

/-- An import, an exported declaration, a reactive statement and an export clause: the import and
what is dropped can be read off the outline. -/
theorem instance_script_conserved_mixed :
    let source := "<script>import a from 'a';export let b=a;$: c=b;let d;export{d};</script>{c}"
    ∃ t script outline, transpile source = .ok t ∧
      (parse source).document.instanceScript = some script ∧
      Script.parse (ScriptBlock.isTyped script) (script.contentSpan.text source) = .ok outline ∧
      outline.Placed (script.contentSpan.text source) ∧
      outline.imports script.contentSpan.start = [⟨8, 26⟩] ∧
      outline.dropped script.contentSpan.start = [⟨26, 33⟩, ⟨54, 64⟩] ∧
      Conserves source t.code t.sourceMap script outline := by
  intro source
  have accepted : (transpile source).toOption.any (fun _ => true) = true := by decide +kernel
  have checked : (parse source).document.instanceScript.any (fun script =>
      (Script.parse (ScriptBlock.isTyped script) (script.contentSpan.text source)).toOption.any
        fun outline => decide (outline.Placed (script.contentSpan.text source)) &&
          outline.imports script.contentSpan.start == [⟨8, 26⟩] &&
          outline.dropped script.contentSpan.start == [⟨26, 33⟩, ⟨54, 64⟩]) = true := by
    decide +kernel
  obtain ⟨t, made, _⟩ := exists_ok_of_check accepted
  obtain ⟨script, found, checkedScript⟩ := (Option.any_eq_true _ _).1 checked
  obtain ⟨outline, read, check⟩ := exists_ok_of_check checkedScript
  simp only [Bool.and_eq_true, decide_eq_true_eq, beq_iff_eq] at check
  obtain ⟨⟨placed, imports⟩, dropped⟩ := check
  exact ⟨t, script, outline, made, found, read, placed, imports, dropped,
    instance_script_conserved made found read placed⟩

end Component

end TypedSvelte
