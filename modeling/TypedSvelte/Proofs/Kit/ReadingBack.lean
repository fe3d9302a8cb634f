import Mathlib.Data.List.Nodup
import TypedSvelte.Proofs.Kit.ItemsApart
import TypedSvelte.Proofs.Kit.RetypedItems

/-!
# Reading a typed file again

The output has the items of the source, each with the texts that are inserted into it. If it is read
as them, and those with texts as the same declarations with types, the exports are the same ones, and
there is nothing left to be typed (`readsBack_of_isReadAs`). Whether it is so is told item by item
(`types_read_back_iff`).
-/
namespace TypedSvelte.Kit

open Script

variable {path : FilePath} {places : KitPaths} {source : String} {kind : FileKind} {r again : Reading}
  {out : Augmented} {entries : List Ledger.Entry}

/-- The texts lie in items. -/
theorem Reading.Augments.lieIn (augments : r.Augments out) :
    ∀ e ∈ out.ledger.entries, ∃ item ∈ r.subject.outline.items, e ∈ textsIn out.ledger.entries item := by
  intro e recorded
  obtain ⟨locals, -, same, types, -⟩ := augments.once
  obtain ⟨l, inLocals, inTexts⟩ := List.mem_flatMap.1 (same.mem_iff.1 recorded)
  obtain ⟨item, inScript, _, _, head, _, ⟨first, last⟩, tailored⟩ := (types l inLocals).declared
  have fits := tailored.fits e inTexts
  have above : head.start < e.position := fits.above
  have within : e.position ≤ head.stop := fits.within
  refine ⟨item, inScript, mem_textsIn.2 ⟨recorded, Nat.lt_of_le_of_lt first above, ?_⟩⟩
  exact Nat.le_trans (Nat.le_trans within last) (Nat.le_max_right _ _)

/-- No two declarations of the script have the same name. -/
def Reading.DeclaresOnce (r : Reading) : Prop :=
  ((r.subject.outline.items.flatMap Item.bound).map (·.1)).Nodup

/-- The texts of two rules that insert something for the same export stand in the same places. -/
private theorem positions_entriesFor {first second : Typing} {shape : ExportShape}
    (filled : entriesFor source first shape ≠ []) (others : entriesFor source second shape ≠ []) :
    (entriesFor source second shape).map (·.position) =
      (entriesFor source first shape).map (·.position) := by
  rcases shape with f | _ | d
  · rcases first with ⟨param, result⟩ | type
    · rcases second with ⟨param', result'⟩ | type'
      · change (functionEntries ..).map _ = (functionEntries ..).map _
        unfold functionEntries
        rcases f.shape.params with _ | ⟨p, _ | ⟨_, _⟩⟩
        · rfl
        · dsimp only
          cases f.bareParam with
          | true => rfl
          | false =>
            cases f.shape.isGenerator with
            | true => rfl
            | false => cases f.paramsClose <;> rfl
        · rfl
      · exact absurd rfl others
    · exact absurd rfl filled
  · cases first <;> exact absurd rfl filled
  · rcases first with ⟨param, result⟩ | type
    · exact absurd rfl filled
    · rcases second with ⟨param', result'⟩ | type'
      · exact absurd rfl others
      · unfold entriesFor
        dsimp only
        cases d.initial <;> cases d.place? <;> rfl

/-- If no name is declared twice, there is a text wherever a rule asks for one. -/
theorem Reading.Augments.fills (augments : r.Augments out) (sound : r.Sound)
    (once : r.DeclaresOnce) : r.Fills out.ledger.entries := by
  intro rule name asked asks e member
  obtain ⟨locals, -, same, types, all⟩ := augments.once
  obtain ⟨⟨_, typed⟩, inLocals, rfl⟩ := List.mem_map.1 (all rule name asked asks)
  obtain ⟨other, others⟩ := (types _ inLocals).asked
  obtain ⟨-, ⟨entry, found, sameName, -, rfl⟩, filled⟩ := asks
  obtain ⟨-, ⟨twin, twinFound, twinName, -, rfl⟩, twinFilled⟩ := others
  have bound {rule : Rule} {entry : ExportEntry}
      (found : r.exports.entries.get? rule.name = some entry)
      (filled : entriesFor r.subject.source rule.typing entry.shape ≠ []) :
      ∃ b, (entry.localName, b) ∈ r.subject.outline.items.flatMap Item.bound ∧
        entry.shape = (b.shape r.subject.source).1 := by
    rcases sound.originates rule.name entry found with free | ⟨item, inScript, b, declares, isBound⟩
    · refine absurd ?_ filled
      rw [free]
      cases rule.typing <;> rfl
    · exact ⟨b, List.mem_flatMap.2 ⟨item, inScript, declares⟩,
        isBound ▸ Subject.boundEntry_shape ..⟩
  obtain ⟨b, declares, shape⟩ := bound found filled
  obtain ⟨b', declares', shape'⟩ := bound twinFound twinFilled
  rw [sameName] at declares
  rw [twinName] at declares'
  cases List.inj_on_of_nodup_map once declares declares' rfl
  rw [shape'] at twinFilled inLocals
  rw [shape] at filled member
  have position := List.mem_map_of_mem (f := (·.position)) member
  rw [← positions_entriesFor filled twinFilled] at position
  obtain ⟨f, inTexts, position⟩ := List.mem_map.1 position
  exact ⟨f, same.mem_iff.2 (List.mem_flatMap.2 ⟨_, inLocals, inTexts⟩), position⟩

/-- What an output is read again as: the same names are exported, bound to the same but for types,
and what texts were inserted for has the types that they are. Nothing is left to be typed if there
was a text wherever a rule asked for one. -/
structure ReadsBack (path : FilePath) (places : KitPaths) (r : Reading) (out : Augmented)
    (again : Reading) : Prop where
  reads : again.Reads path places out.text out.kind
  declared : again.exports.declared = r.exports.declared
  names : again.exports.entries.names = r.exports.entries.names
  exports : ∀ name entry, r.exports.entries.get? name = some entry →
    ∃ now, again.exports.entries.get? name = some now ∧ now.localName = entry.localName ∧
      Retyped out.ledger.entries (entry.shape, entry.hasExplicitType)
        (now.shape.sketch, now.hasExplicitType) ∧
      (Receives out.ledger.entries entry.shape → now.hasExplicitType = true)
  settled : r.Fills out.ledger.entries → augment path out.text places = .ok none

/-- What has been typed has the types. -/
private theorem retyped_of_entryAlike {s other : Subject} {before now : ExportEntry}
    (untyped : s.typed = true) (others : other.typed = true)
    (alike : EntryAlike (BoundRetyped s.source entries) s other before now) :
    now.localName = before.localName ∧
      Retyped entries (before.shape, before.hasExplicitType) (now.shape.sketch, now.hasExplicitType) ∧
      (Receives entries before.shape → now.hasExplicitType = true) := by
  rcases alike with ⟨localName, rfl, rfl⟩ | ⟨localName, first, second, start, behind, same, rfl, rfl⟩
  · exact ⟨rfl, ⟨.refl _, id, False.elim⟩, False.elim⟩
  · have hasType (s : Subject) (typed : s.typed = true) (b : Bound) (start : Nat) :
        (s.boundEntry localName b start).hasExplicitType = (b.sketch s.source).2 := by
      simp [Subject.boundEntry, Bound.sketch, typed]
    have retyped : Retyped entries (first.shape s.source) (second.sketch other.source) :=
      second.sketch_eq s.source other.source ▸ same
    rw [hasType s untyped, hasType other others]
    refine ⟨rfl, retyped, fun receives => ?_⟩
    exact Bound.hasType_of_sketch (retyped.typed receives)

/-- No rule has anything left to insert. -/
private theorem insertions_eq_empty (sound : r.Sound) (fills : r.Fills entries)
    (rules : kind.rules = r.rules) {text : String} {others : Exports}
    (names : ∀ name, r.exports.entries.get? name = none → others.entries.get? name = none)
    (same : ∀ name entry, r.exports.entries.get? name = some entry →
      ∃ now, others.entries.get? name = some now ∧
        Retyped entries (entry.shape, entry.hasExplicitType) (now.shape.sketch, now.hasExplicitType) ∧
        (Receives entries entry.shape → now.hasExplicitType = true)) :
    insertions kind text others = .ok .empty := by
  have idle (rule : Rule) (member : rule ∈ r.rules) :
      applyRule text others ⟨.empty, []⟩ rule = .ok ⟨.empty, []⟩ := by
    unfold applyRule
    cases found : r.exports.entries.get? rule.name with
    | none => rw [names rule.name found]
    | some entry =>
      obtain ⟨now, isNow, retyped, typed⟩ := same rule.name entry found
      rw [isNow]
      dsimp only
      split
      · rfl
      · rename_i unsettled
        have noType : now.hasExplicitType = false := by simpa using unsettled
        have nothing : entriesFor text rule.typing now.shape = [] := by
          rw [entriesFor_eq_nil_iff, rule.typing.fits_eq_of_sameForm retyped.form, ← Bool.not_eq_true]
          intro fits
          have untyped : entry.hasExplicitType = false := by
            rw [← Bool.not_eq_true]
            intro had
            exact absurd (retyped.keeps had) (noType ▸ Bool.false_ne_true)
          rw [typed (r.receives_of_fits sound fills member found untyped fits)] at noType
          cases noType
        rw [annotate_eq, nothing]
        rfl
  have all : ∀ rules : List Rule, (∀ rule ∈ rules, rule ∈ r.rules) →
      rules.foldlM (applyRule text others) ⟨.empty, []⟩ = .ok ⟨.empty, []⟩ := by
    intro rules members
    induction rules with
    | nil => rfl
    | cons rule later ih =>
      obtain ⟨here, later⟩ := List.forall_mem_cons.1 members
      rw [List.foldlM_cons, idle rule here]
      exact ih later
  rw [insertions, rules, all r.rules fun _ => id]
  rfl

/-- Read as its items with types, the output is read back. -/
theorem readsBack_of_isReadAs (reads : r.Reads path places source out.kind)
    (isTyped : path.extension? = some "ts") (unmarked : source.toList.head? ≠ some '\uFEFF')
    (accurate : r.subject.outline.Accurate source) {typings : List (Item × ItemKind)}
    (items : typings.map (·.1) = r.subject.outline.items)
    (retyped : ∀ t ∈ typings, IsRetyped source out.ledger.entries t.1 t.2)
    (spelled : out.text.toList = spell (typedPassages source out.ledger.entries 0 typings))
    (readAs : IsReadAs true out.text (typedPassages source out.ledger.entries 0 typings)) :
    ∃ again, ReadsBack path places r out again := by
  have sound : r.Sound := ⟨reads.text ▸ accurate, Subject.origin_of_exports reads.exports⟩
  have typed : r.subject.typed = true := by rw [reads.typed, isTyped, beq_self_eq_true]
  have parsed : Script.parse true source = .ok r.subject.outline := typed ▸ reads.outline
  obtain rfl := reads.text
  obtain ⟨outline, reread, same, -⟩ := readAs
  let other : Subject := ⟨outline, out.text, true⟩
  have alike : Subject.ItemsAlike (BoundRetyped r.subject.source out.ledger.entries) r.subject other := by
    unfold Subject.ItemsAlike
    rw [← items, show other.outline.items = _ from same]
    refine items_alike retyped ?_ ?_ ?_ ⟨[], spelled, rfl⟩
    · exact items ▸ fun item member => accurate.declarations item member
    · exact items ▸ exists_own_of_parse unmarked parsed
    · exact items ▸ inOrder_of_parse unmarked parsed
  obtain ⟨others, exported, declared, names, entries⟩ := Subject.exports_alike alike reads.exports
  have again : Reading.Reads path places out.text out.kind ⟨other, others, out.kind.rules⟩ :=
    ⟨reads.classified, rfl, rfl, by rw [isTyped, beq_self_eq_true], reread, exported⟩
  have found (name : String) (entry : ExportEntry)
      (isEntry : r.exports.entries.get? name = some entry) :
      ∃ now, others.entries.get? name = some now ∧ now.localName = entry.localName ∧
        Retyped out.ledger.entries (entry.shape, entry.hasExplicitType)
          (now.shape.sketch, now.hasExplicitType) ∧
        (Receives out.ledger.entries entry.shape → now.hasExplicitType = true) := by
    have here := entries name
    rw [isEntry] at here
    generalize others.entries.get? name = now? at here
    cases here with
    | some related => exact ⟨_, rfl, retyped_of_entryAlike typed rfl related⟩
  refine ⟨_, again, declared, names, found, fun fills => ?_⟩
  have none (name : String) (absent : r.exports.entries.get? name = none) :
      others.entries.get? name = none := by
    have here := entries name
    rw [absent] at here
    generalize others.entries.get? name = now? at here
    cases here
    rfl
  have nothing : insertions out.kind out.text others = .ok .empty :=
    insertions_eq_empty sound fills reads.rules.symm none fun name entry isEntry =>
      let ⟨now, isNow, _, same⟩ := found name entry isEntry
      ⟨now, isNow, same⟩
  rw [again.augment_eq nothing]
  rfl

/-- The output begins as the source does. -/
private theorem unmarked_of_weave (woven : Ledger.weave source 0 entries = some out.text)
    (cuts : ∀ e ∈ entries, IsCut source e.position) (filled : entries ≠ [])
    (behind : ∀ e ∈ entries, 0 < e.position) (unmarked : source.toList.head? ≠ some '\uFEFF') :
    out.text.toList.head? ≠ some '\uFEFF' := by
  cases entries with
  | nil => exact absurd rfl filled
  | cons e others =>
    have start : IsCut source 0 := isCut_iff.2 ⟨"", source, String.empty_append.symm, rfl⟩
    have positive := behind e List.mem_cons_self
    obtain ⟨⟨after, before, parts, none⟩, size⟩ :=
      resumes_text start (cuts e List.mem_cons_self) (Nat.zero_le _)
    rw [Ledger.eq_filled_of_weave woven cuts, Ledger.filled, String.append_assoc, String.toList_append]
    generalize ((Span.mk 0 e.position).text source).toList = text at parts size ⊢
    cases text with
    | nil => exact absurd size (by simp only [byteSize]; omega)
    | cons c cs =>
      cases before with
      | nil =>
        rw [parts] at unmarked
        exact unmarked
      | cons d ds => exact absurd none (Nat.ne_of_gt (byteSize_pos (List.cons_ne_nil d ds)))

/-- The function `match`, of one parameter, in front of the byte `stop`. -/
private def matcher (typeStop : Option Nat) (hasReturnType : Bool) (bodyStart stop : Nat) : Item :=
  ⟨⟨0, stop⟩, .exportDeclaration 7 (.function "match"
    ⟨7, [.name ⟨22, 23⟩ "p" typeStop], hasReturnType, false, false, bodyStart⟩)⟩

private def isMatcher (typeStop : Option Nat) (hasReturnType : Bool) (bodyStart stop : Nat) :
    List Item → Bool
  | [⟨⟨0, last⟩, .exportDeclaration 7 (.function "match"
      ⟨7, [.name ⟨22, 23⟩ "p" type], result, false, false, body⟩)⟩] =>
    type == typeStop && result == hasReturnType && body == bodyStart && last == stop
  | _ => false

private theorem eq_of_isMatcher {typeStop : Option Nat} {hasReturnType : Bool} {bodyStart stop : Nat}
    {items : List Item} (check : isMatcher typeStop hasReturnType bodyStart stop items = true) :
    items = [matcher typeStop hasReturnType bodyStart stop] := by
  unfold isMatcher at check
  split at check
  · simp only [Bool.and_eq_true, beq_iff_eq] at check
    obtain ⟨⟨⟨rfl, rfl⟩, rfl⟩, rfl⟩ := check
    rfl
  · cases check

/-- The text is read as the typed matcher, and not behind its end. -/
private def readsMatcher (text : List Char) : Bool :=
  match (Grammar.moduleItem (grammar plenty)).run (.top true) (.standing true text) with
  | .ok item next =>
    isMatcher (some 31) true 42 44 [item] && next.faults.isEmpty &&
      (Grammar.moduleItem (grammar plenty)).settled (.top true) (.standing true text) (byteSize text)
  | .error _ _ => false

private theorem standsAlone_of_readsMatcher {text : List Char} (check : readsMatcher text = true)
    (size : byteSize text = 44) : StandsAlone true text (matcher (some 31) true 42 44).kind := by
  unfold readsMatcher at check
  split at check
  · rename_i item next read
    simp only [Bool.and_eq_true, List.isEmpty_iff] at check
    obtain ⟨⟨same, faultless⟩, settled⟩ := check
    refine ⟨?_, ⟨next, ?_, faultless⟩, settled⟩
    · rintro rfl
      cases size
    · rw [read, List.singleton_inj.1 (eq_of_isMatcher same), itemOf, size]
      rfl
  · cases check

end TypedSvelte.Kit
