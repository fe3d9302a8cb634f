import Mathlib.Data.List.Basic
import Mathlib.Data.List.Flatten
import TypedSvelte.Proofs.Script.ExportTables
import TypedSvelte.Script.Parse

/-!
# Exported declarations and export clauses

A name that is exported with its declaration is described by the last of its exported declarations;
a clause that names it instead describes it by the first of its declarations
(`inline_export_and_clause`). So the two agree on a name that is declared once, and may differ on
one that has several, such as an overloaded function.
-/
namespace TypedSvelte.Script

/-- The item with its declaration no longer exported. -/
def Item.unexported (item : Item) : Item :=
  match item.kind with
  | .exportDeclaration _ d => { item with kind := .statement (.declaration d) }
  | _ => item

namespace Subject

variable {s : Subject} {mode : ExportMode} {exports : Exports} {n : String}

/-- The script with plain declarations for its exported ones, and at `place` behind them a clause
that exports a name. -/
def withClause (s : Subject) (n : String) (place : Span) : Subject where
  outline := {
    items := s.outline.items.map Item.unexported
      ++ [⟨place, .exportClause false false [.named (.ident n) none false]⟩]
    identifiers := s.outline.identifiers }
  source := s.source
  typed := s.typed

/-- The declarations of a name, each with the start of its item. -/
def declarationsOf (s : Subject) (n : String) : List (Bound × Nat) :=
  Entries.valuesOf n s.bindings

/-- What is declared and exported at once, each with the start of its item. -/
def inlineBindings (s : Subject) : List (String × Bound × Nat) :=
  s.outline.items.flatMap fun item =>
    item.inlineBound.map fun (name, bound) => (name, bound, item.span.start)

/-- The declarations of a name that are exported at once. -/
def exportedDeclarationsOf (s : Subject) (n : String) : List (Bound × Nat) :=
  Entries.valuesOf n s.inlineBindings

def clauseNames (s : Subject) : List String :=
  s.outline.items.flatMap fun item => (item.specifiers.filterMap s.clauseExport?).map (·.1)

theorem declaration?_unexported (item : Item) : item.unexported.declaration? = item.declaration? := by
  obtain ⟨span, kind⟩ := item
  cases kind <;> rfl

private theorem span_unexported (item : Item) : item.unexported.span = item.span := by
  obtain ⟨span, kind⟩ := item
  cases kind <;> rfl

theorem fault?_unexported (item : Item) : item.unexported.fault? mode = item.fault? mode := by
  obtain ⟨span, kind⟩ := item
  cases kind <;> rfl

private theorem bindings_withClause (place : Span) : (s.withClause n place).bindings = s.bindings := by
  rw [bindings, withClause, List.flatMap_append, List.flatMap_map]
  refine (List.append_nil _).trans (List.flatMap_congr fun item _ => ?_)
  dsimp only
  rw [declaration?_unexported, span_unexported]

private theorem entry_withClause (place : Span) : (s.withClause n place).entry = s.entry := by
  funext localName
  rw [entry, entry, bindings_withClause]
  rfl

private theorem exports_withClause (accepted : s.exports mode = .ok exports) (place : Span) :
    ∃ clause, (s.withClause n place).exports mode = .ok clause ∧
      clause.entries.get? n = some (s.entry n) := by
  rw [exports_eq, faultOr_eq_ok_iff] at accepted
  have stillFaultless : (s.withClause n place).outline.items.findSome? (Item.fault? mode) = none := by
    rw [withClause, List.findSome?_append, List.findSome?_map]
    have same : Item.fault? mode ∘ Item.unexported = Item.fault? mode := funext fault?_unexported
    rw [same, accepted.1]
    rfl
  refine ⟨_, by rw [exports_eq, stillFaultless]; rfl, ?_⟩
  have last : (s.withClause n place).exportList =
      (s.outline.items.map Item.unexported).flatMap (s.withClause n place).exportsOf
        ++ [(n, (s.withClause n place).entry n)] := List.flatMap_append
  rw [last, entry_withClause, Entries.putAll_snoc, Entries.get?_put, if_pos rfl]

private theorem inlineBindings_sublist (s : Subject) : s.inlineBindings.Sublist s.bindings := by
  refine List.Sublist.flatMap_right _ fun item _ => ?_
  obtain ⟨span, kind⟩ := item
  cases kind with
  | exportDeclaration start d => exact List.Sublist.refl _
  | _ => exact List.nil_sublist _

private theorem valuesOf_exportsOf {item : Item}
    (free : n ∉ (item.specifiers.filterMap s.clauseExport?).map (·.1)) :
    Entries.valuesOf n (s.exportsOf item) =
      (Entries.valuesOf n item.inlineBound).map fun bound =>
        s.boundEntry n bound item.span.start := by
  rw [exportsOf, Entries.valuesOf_append, (Entries.valuesOf_eq_nil_iff _ _).2 free, List.append_nil]
  exact Entries.valuesOf_map n (fun name bound => s.boundEntry name bound item.span.start) _

private theorem exportedDeclarationsOf_eq (s : Subject) (n : String) :
    s.exportedDeclarationsOf n = s.outline.items.flatMap fun item =>
      (Entries.valuesOf n item.inlineBound).map fun bound => (bound, item.span.start) := by
  rw [exportedDeclarationsOf, inlineBindings, Entries.valuesOf_flatMap]
  refine List.flatMap_congr fun item _ => ?_
  exact Entries.valuesOf_map n (fun _ bound => (bound, item.span.start)) _

/-- Where no clause exports the name, its exports are its declarations that are exported. -/
theorem valuesOf_exportList (free : n ∉ s.clauseNames) :
    Entries.valuesOf n s.exportList =
      (s.exportedDeclarationsOf n).map fun (bound, start) => s.boundEntry n bound start := by
  rw [exportList, Entries.valuesOf_flatMap, exportedDeclarationsOf_eq, List.map_flatMap]
  refine List.flatMap_congr fun item member => ?_
  have freeHere : n ∉ (item.specifiers.filterMap s.clauseExport?).map (·.1) := fun named =>
    free (List.mem_flatMap.2 ⟨item, member, named⟩)
  rw [valuesOf_exportsOf freeHere, List.map_map]
  rfl

private theorem valuesOf_exportList_ne_nil
    (inline : ∃ item ∈ s.outline.items, n ∈ item.inlineBound.map (·.1)) :
    Entries.valuesOf n s.exportList ≠ [] := by
  obtain ⟨item, member, declared⟩ := inline
  obtain ⟨⟨name, bound⟩, inItem, rfl⟩ := List.mem_map.1 declared
  refine mt (Entries.valuesOf_eq_nil_iff _ _).1 (not_not.2 (List.mem_map.2
    ⟨(name, s.boundEntry name bound item.span.start), List.mem_flatMap.2 ⟨item, member, ?_⟩, rfl⟩))
  exact List.mem_append_left _ (List.mem_map.2 ⟨_, inItem, rfl⟩)

private theorem exportedDeclarationsOf_sublist (s : Subject) (n : String) :
    (s.exportedDeclarationsOf n).Sublist (s.declarationsOf n) :=
  s.inlineBindings_sublist.filterMap _

private theorem exportedDeclarationsOf_ne_nil
    (inline : ∃ item ∈ s.outline.items, n ∈ item.inlineBound.map (·.1)) :
    s.exportedDeclarationsOf n ≠ [] := by
  obtain ⟨item, member, declared⟩ := inline
  rw [exportedDeclarationsOf_eq, Ne, List.flatMap_eq_nil_iff, not_forall₂]
  refine ⟨item, member, ?_⟩
  rw [List.map_eq_nil_iff, Entries.valuesOf_eq_nil_iff, not_not]
  exact declared

/-- A local name is described by the first of its declarations. -/
theorem entry_eq_of_head? {first : Bound × Nat} (declared : first ∈ (s.declarationsOf n).head?) :
    s.entry n = s.boundEntry n first.1 first.2 := by
  rw [entry, Entries.lookup_eq_head?, ← declarationsOf, declared]

/-- A name that is exported with its declaration is described by the last of its exports, that is,
by the last of its exported declarations unless a clause exports it too. Were all declarations plain,
and the name exported by a clause behind them, it would be described by the first of all its
declarations. So the two agree on a name that has one declaration only. -/
theorem inline_export_and_clause (accepted : s.exports mode = .ok exports)
    (inline : ∃ item ∈ s.outline.items, n ∈ item.inlineBound.map (·.1)) (place : Span) :
    ∃ recorded described,
      exports.entries.get? n = some recorded ∧
      (∃ clause, (s.withClause n place).exports mode = .ok clause ∧
        clause.entries.get? n = some described) ∧
      (Entries.valuesOf n s.exportList).getLast? = some recorded ∧
      (∃ first ∈ (s.declarationsOf n).head?, described = s.boundEntry n first.1 first.2) ∧
      (n ∉ s.clauseNames →
        (∃ last ∈ (s.exportedDeclarationsOf n).getLast?,
          recorded = s.boundEntry n last.1 last.2) ∧
        ((s.declarationsOf n).length = 1 → recorded = described)) := by
  have exported := exportedDeclarationsOf_ne_nil inline
  have declared : s.declarationsOf n ≠ [] := fun none =>
    exported (List.sublist_nil.1 (none ▸ s.exportedDeclarationsOf_sublist n))
  have lastExport := List.getLast?_eq_some_getLast (valuesOf_exportList_ne_nil inline)
  obtain ⟨first, isFirst⟩ : ∃ first, (s.declarationsOf n).head? = some first :=
    ⟨_, List.head?_eq_some_head declared⟩
  obtain ⟨last, isLast⟩ : ∃ last, (s.exportedDeclarationsOf n).getLast? = some last :=
    ⟨_, List.getLast?_eq_some_getLast exported⟩
  have entryOfFirst := entry_eq_of_head? isFirst
  refine ⟨_, _, ?_, exports_withClause accepted place, lastExport,
    ⟨first, isFirst, entryOfFirst⟩, fun free => ?_⟩
  · rw [(tables_of_exports accepted).1, Entries.get?_putAll_eq_getLast?, lastExport]
  have recorded : (Entries.valuesOf n s.exportList).getLast? =
      some (s.boundEntry n last.1 last.2) := by
    rw [valuesOf_exportList free, List.getLast?_map, isLast]
    rfl
  have described := Option.some.inj (lastExport.symm.trans recorded)
  refine ⟨⟨last, isLast, described⟩, fun once => ?_⟩
  obtain ⟨only, isOnly⟩ := List.length_eq_one_iff.1 once
  have alone := s.exportedDeclarationsOf_sublist n
  rw [isOnly] at alone isFirst
  obtain none | all := List.sublist_singleton.1 alone
  · exact absurd none exported
  · rw [all] at isLast
    cases isFirst
    cases isLast
    exact described.trans entryOfFirst.symm

/-- A function that is declared once is described alike in both ways. -/
theorem inline_export_and_clause_once :
    let source := "export function f(e: string) \x7b\x7d"
    ∃ outline exports clause, parse true source = .ok outline ∧
      (⟨outline, source, true⟩ : Subject).exports .standalone = .ok exports ∧
      ((⟨outline, source, true⟩ : Subject).withClause "f" ⟨32, 32⟩).exports .standalone = .ok clause ∧
      (exports.entries.get? "f").isSome = true ∧
      clause.entries.get? "f" = exports.entries.get? "f" := by
  intro source
  have checked : (parse true source).toOption.any (fun outline =>
      ((⟨outline, source, true⟩ : Subject).exports .standalone).toOption.any fun _ =>
        (outline.items.any fun item => (item.inlineBound.map (·.1)).contains "f") &&
        !(⟨outline, source, true⟩ : Subject).clauseNames.contains "f" &&
        ((⟨outline, source, true⟩ : Subject).declarationsOf "f").length == 1) = true := by
    decide +kernel
  obtain ⟨outline, read, checked⟩ := exists_ok_of_check checked
  obtain ⟨exports, accepted, checked⟩ := exists_ok_of_check checked
  obtain ⟨checked, once⟩ := Bool.and_eq_true_iff.1 checked
  obtain ⟨inline, free⟩ := Bool.and_eq_true_iff.1 checked
  obtain ⟨item, member, named⟩ := List.any_eq_true.1 inline
  obtain ⟨recorded, described, entry, ⟨clause, made, listed⟩, _, _, alike⟩ :=
    inline_export_and_clause accepted ⟨item, member, List.contains_iff_mem.1 named⟩ ⟨32, 32⟩
  have free : "f" ∉ (⟨outline, source, true⟩ : Subject).clauseNames := fun member => by
    rw [List.contains_iff_mem.2 member] at free
    cases free
  refine ⟨outline, exports, clause, read, accepted, made, by rw [entry]; rfl, ?_⟩
  rw [listed, entry, (alike free).2 (eq_of_beq once)]

/-- An overloaded function is described by its last signature where it is exported with its
declarations, and by its first one in a clause. -/
theorem overload_described_twice :
    let source := "export function f(e: string): void;\nexport function f(e) \x7b\x7d"
    ∃ outline exports clause, parse true source = .ok outline ∧
      (⟨outline, source, true⟩ : Subject).exports .standalone = .ok exports ∧
      ((⟨outline, source, true⟩ : Subject).withClause "f" ⟨59, 59⟩).exports .standalone = .ok clause ∧
      (exports.entries.get? "f").map (·.hasExplicitType) = some false ∧
      (clause.entries.get? "f").map (·.hasExplicitType) = some true := by
  intro source
  have checked : (parse true source).toOption.any (fun outline =>
      ((⟨outline, source, true⟩ : Subject).exports .standalone).toOption.any fun exports =>
        (((⟨outline, source, true⟩ : Subject).withClause "f" ⟨59, 59⟩).exports
          .standalone).toOption.any fun clause =>
            decide ((exports.entries.get? "f").map (·.hasExplicitType) = some false ∧
              (clause.entries.get? "f").map (·.hasExplicitType) = some true)) = true := by
    decide +kernel
  obtain ⟨outline, read, checked⟩ := exists_ok_of_check checked
  obtain ⟨exports, accepted, checked⟩ := exists_ok_of_check checked
  obtain ⟨clause, made, checked⟩ := exists_ok_of_check checked
  exact ⟨outline, exports, clause, read, accepted, made, of_decide_eq_true checked⟩

end Subject

end TypedSvelte.Script
