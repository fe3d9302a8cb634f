import TypedSvelte.Proofs.Script.ExportOrigin
import TypedSvelte.Proofs.Text.PutValues

/-!
# The tables of the exports

A script is refused for the first of its exports that is at fault. Else its entries are what its
items export, put one after another, and the declared names are those that items declare without
exporting them (`exports_eq`).
-/
namespace TypedSvelte.Script

/-- The names that an item declares without exporting the declaration, or imports. -/
def Item.plainNames (item : Item) : List String :=
  match item.kind with
  | .imports locals => locals
  | .statement (.declaration d) => d.bound.map (·.1)
  | _ => []

def Item.inlineBound (item : Item) : List (String × Bound) :=
  match item.kind with
  | .exportDeclaration _ d => d.bound
  | _ => []

/-- The parts of an item that is an export clause which is read. -/
def Item.specifiers (item : Item) : List ExportSpecifier :=
  match item.kind with
  | .exportClause false false specifiers => specifiers
  | _ => []

/-- An export that only components are refused for. -/
def refusal? (mode : ExportMode) (fault : ExportFault) (offset : Nat) : Option ExportError :=
  match mode with
  | .component => some ⟨fault, offset⟩
  | .standalone => none

/-- What is refused of a part of an export clause at byte `start`. -/
def ExportSpecifier.fault? (mode : ExportMode) (start : Nat) : ExportSpecifier → Option ExportError
  | .everything => refusal? mode .unsupportedSpecifier start
  | .named (.string place) _ false => some ⟨.stringWithoutModule, place.start⟩
  | .named (.ident _) _ false | .named _ _ true => none

def Item.fault? (mode : ExportMode) (item : Item) : Option ExportError :=
  match item.kind with
  | .exportClause false true _ => refusal? mode .reExport item.span.start
  | .exportClause false false specifiers =>
    specifiers.findSome? (ExportSpecifier.fault? mode item.span.start)
  | .exportAll => refusal? mode .exportAll item.span.start
  | .exportDefault _ _ => refusal? mode .exportDefault item.span.start
  | .exportClause true _ _ | .imports _ | .statement _ | .exportDeclaration _ _ | .other => none

namespace Subject

variable {s : Subject} {mode : ExportMode} {exports : Exports}

def clauseExport? (s : Subject) : ExportSpecifier → Option (String × ExportEntry)
  | .named (.ident localName) exported false =>
    some (s.exportedName localName exported, s.entry localName)
  | .named (.string _) _ false | .named _ _ true | .everything => none

def exportsOf (s : Subject) (item : Item) : List (String × ExportEntry) :=
  (item.inlineBound.map fun (name, bound) => (name, s.boundEntry name bound item.span.start))
    ++ item.specifiers.filterMap s.clauseExport?

def exportList (s : Subject) : List (String × ExportEntry) := s.outline.items.flatMap s.exportsOf

/-- The exports with entries put to them one after another, and with declared names. -/
def extend (exports : Exports) (entries : List (String × ExportEntry)) (declared : List String) :
    Exports where
  entries := entries.foldl (fun known entry => known.put entry.1 entry.2) exports.entries
  declared := exports.declared ++ declared

private theorem refuse_eq (fault : ExportFault) (offset : Nat) :
    refuse mode fault offset exports = faultOr (refusal? mode fault offset) exports := by
  cases mode <;> rfl

private theorem extend_nil : extend exports [] [] = exports := by
  rw [extend, List.append_nil]
  rfl

private theorem extend_extend (first second : List (String × ExportEntry)) (names more : List String) :
    extend (extend exports first names) second more
      = extend exports (first ++ second) (names ++ more) := by
  rw [extend, extend, extend, List.foldl_append, List.append_assoc]

private theorem addSpecifier_eq (start : Nat) (exports : Exports) (specifier : ExportSpecifier) :
    s.addSpecifier mode start exports specifier = faultOr (specifier.fault? mode start)
      (extend exports (s.clauseExport? specifier).toList []) := by
  cases specifier with
  | everything => exact (refuse_eq _ _).trans (congrArg _ extend_nil.symm)
  | named source exported isTypeOnly =>
    cases source with
    | string place =>
      cases isTypeOnly with
      | true => exact congrArg Except.ok extend_nil.symm
      | false => rfl
    | ident localName =>
      cases isTypeOnly with
      | true => exact congrArg Except.ok extend_nil.symm
      | false =>
        rw [addSpecifier, extend, List.append_nil]
        rfl

private theorem foldl_clauseExport (specifiers : List ExportSpecifier) (exports : Exports) :
    specifiers.foldl (fun known specifier => extend known (s.clauseExport? specifier).toList [])
      exports = extend exports (specifiers.filterMap s.clauseExport?) [] := by
  induction specifiers generalizing exports with
  | nil => exact extend_nil.symm
  | cons specifier rest ih =>
    rw [List.foldl_cons, ih, extend_extend, List.filterMap_cons]
    cases s.clauseExport? specifier <;> rfl

private theorem addItem_eq (exports : Exports) (item : Item) :
    s.addItem mode exports item = faultOr (item.fault? mode)
      (extend exports (s.exportsOf item) item.plainNames) := by
  obtain ⟨span, kind⟩ := item
  have passed (fault : ExportFault) : refuse mode fault span.start exports =
      faultOr (refusal? mode fault span.start) (extend exports [] []) := by
    rw [extend_nil, refuse_eq]
  cases kind with
  | imports locals => rfl
  | statement content =>
    cases content with
    | declaration d => rfl
    | labelled _ _ | expression _ | other => exact congrArg Except.ok extend_nil.symm
  | exportDeclaration start d =>
    rw [addItem, extend, exportsOf]
    simp [Item.fault?, faultOr, Item.inlineBound, Item.specifiers, Item.plainNames, List.foldl_map]
  | exportClause isTypeOnly fromModule specifiers =>
    cases isTypeOnly with
    | true => exact congrArg Except.ok extend_nil.symm
    | false =>
      cases fromModule with
      | true => exact passed _
      | false =>
        refine (foldlM_eq_of_faults (addSpecifier_eq span.start) specifiers exports).trans ?_
        rw [foldl_clauseExport]
        rfl
  | exportAll => exact passed _
  | exportDefault name value => exact passed _
  | other => exact congrArg Except.ok extend_nil.symm

private theorem foldl_extend (items : List Item) (exports : Exports) :
    items.foldl (fun known item => extend known (s.exportsOf item) item.plainNames) exports
      = extend exports (items.flatMap s.exportsOf) (items.flatMap Item.plainNames) := by
  induction items generalizing exports with
  | nil => exact extend_nil.symm
  | cons item rest ih => rw [List.foldl_cons, ih, extend_extend, List.flatMap_cons, List.flatMap_cons]

/-- A script is refused for its first export that is at fault. Else its entries are its exports put
one after another, and the declared names are those of its items. -/
theorem exports_eq (s : Subject) (mode : ExportMode) :
    s.exports mode = faultOr (s.outline.items.findSome? (Item.fault? mode))
      ⟨Entries.putAll s.exportList, s.outline.items.flatMap Item.plainNames⟩ := by
  rw [Subject.exports, foldlM_eq_of_faults addItem_eq, foldl_extend]
  rfl

/-- The tables of a script that is accepted. -/
theorem tables_of_exports (accepted : s.exports mode = .ok exports) :
    exports.entries = Entries.putAll s.exportList ∧
      exports.declared = s.outline.items.flatMap Item.plainNames := by
  rw [exports_eq, faultOr_eq_ok_iff] at accepted
  obtain ⟨_, rfl⟩ := accepted
  exact ⟨rfl, rfl⟩

end Subject

end TypedSvelte.Script
