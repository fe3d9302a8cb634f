import TypedSvelte.Proofs.Script.ExportTables
import TypedSvelte.Script.Parse

/-!
# The names that a script declares

Where no name is exported twice, the names that a script is found to declare are those that it
imports and those of its variables, functions, classes and enumerations, exported or not
(`isDeclared_iff`). Left out are functions and classes that are exported by default and variables
that are to be disposed of.
-/
namespace TypedSvelte.Script

/-- A pattern binds a name: it is the name, or one of its parts binds it. -/
inductive Pattern.Binds (n : String) : Pattern → Prop
  | name (place : Span) (typeStop : Option Nat) : Binds n (.name place n typeStop)
  | element {place : Span} {typeStop : Option Nat} {elements : List Pattern} {p : Pattern}
      (member : p ∈ elements) (binds : Binds n p) : Binds n (.array place typeStop elements)
  | property {place : Span} {typeStop : Option Nat} {properties : List Pattern} {p : Pattern}
      (member : p ∈ properties) (binds : Binds n p) : Binds n (.object place typeStop properties)
  | rest {place : Span} {typeStop : Option Nat} {target : Pattern} (binds : Binds n target) :
      Binds n (.rest place typeStop target)
  | withDefault {place : Span} {target : Pattern} (binds : Binds n target) :
      Binds n (.withDefault place target)

/-- A declaration of variables, of a function, a class or an enumeration declares a name. -/
inductive Declaration.Declares (n : String) : Declaration → Prop
  | function (shape : FunctionShape) : Declares n (.function n shape)
  | classNamed : Declares n (.classNamed n)
  | enum : Declares n (.enum n)
  | variable {d : Declarator} {declarators : List Declarator} (member : d ∈ declarators)
      (binds : d.target.Binds n) : Declares n (.bindings declarators)

/-- An item imports a name, declares it, or exports a declaration of it. -/
inductive Item.Declares (n : String) : Item → Prop
  | imported {span : Span} {locals : List String} (member : n ∈ locals) :
      Declares n ⟨span, .imports locals⟩
  | plain {span : Span} {d : Declaration} (declares : d.Declares n) :
      Declares n ⟨span, .statement (.declaration d)⟩
  | exported {span : Span} {start : Nat} {d : Declaration} (declares : d.Declares n) :
      Declares n ⟨span, .exportDeclaration start d⟩

/-- The name of the function or class that an item exports by default. -/
def Item.defaultName? (item : Item) : Option String :=
  match item.kind with
  | .exportDefault name _ => name
  | _ => none

/-- The variables that an item declares to be disposed of. -/
def Item.disposables (item : Item) : List Declarator :=
  match item.kind with
  | .statement (.declaration (.disposable declarators)) => declarators
  | _ => []

/-- An item binds a name at the top level: it declares it, exports a function or class of that name
by default, or declares it for a variable that is to be disposed of. -/
inductive Item.Binds (n : String) (item : Item) : Prop
  | declared (declares : item.Declares n)
  | byDefault (named : item.defaultName? = some n)
  | disposable {d : Declarator} (member : d ∈ item.disposables) (binds : d.target.Binds n)

variable {n : String}

mutual

private theorem Pattern.binds_iff_mem_places (p : Pattern) : p.Binds n ↔ n ∈ p.places.map (·.2) := by
  cases p with
  | name place text typeStop =>
    refine Iff.trans ⟨?_, ?_⟩ List.mem_singleton.symm
    · rintro ⟨⟩
      rfl
    · rintro rfl
      exact .name place typeStop
  | array place typeStop elements =>
    rw [places, ← exists_binds_iff_mem_placesOf elements]
    exact ⟨fun | .element member binds => ⟨_, member, binds⟩, fun ⟨_, member, binds⟩ =>
      .element member binds⟩
  | object place typeStop properties =>
    rw [places, ← exists_binds_iff_mem_placesOf properties]
    exact ⟨fun | .property member binds => ⟨_, member, binds⟩, fun ⟨_, member, binds⟩ =>
      .property member binds⟩
  | rest place typeStop target =>
    rw [places, ← binds_iff_mem_places target]
    exact ⟨fun | .rest binds => binds, .rest⟩
  | withDefault place target =>
    rw [places, ← binds_iff_mem_places target]
    exact ⟨fun | .withDefault binds => binds, .withDefault⟩
  | other place => exact iff_of_false nofun List.not_mem_nil

private theorem Pattern.exists_binds_iff_mem_placesOf (ps : List Pattern) :
    (∃ p ∈ ps, p.Binds n) ↔ n ∈ (Pattern.placesOf ps).map (·.2) := by
  cases ps with
  | nil => exact iff_of_false (fun ⟨_, member, _⟩ => nomatch member) List.not_mem_nil
  | cons p rest =>
    simp only [List.mem_cons, exists_eq_or_imp]
    rw [Pattern.binds_iff_mem_places p, Pattern.exists_binds_iff_mem_placesOf rest,
      Pattern.placesOf, List.map_append, List.mem_append]

end

private theorem Declarator.mem_bound_iff (d : Declarator) :
    n ∈ d.bound.map (·.1) ↔ d.target.Binds n := by
  rw [Pattern.binds_iff_mem_places]
  unfold Declarator.bound
  split
  · rename_i target
    rw [target]
    rfl
  · rw [List.map_map, Pattern.names, List.map_map]
    rfl

private theorem Declaration.mem_bound_iff (d : Declaration) :
    n ∈ d.bound.map (·.1) ↔ d.Declares n := by
  cases d with
  | function name shape =>
    exact List.mem_singleton.trans ⟨fun same => same ▸ .function shape, fun | .function _ => rfl⟩
  | classNamed name =>
    exact List.mem_singleton.trans ⟨fun same => same ▸ .classNamed, fun | .classNamed => rfl⟩
  | enum name =>
    exact List.mem_singleton.trans ⟨fun same => same ▸ .enum, fun | .enum => rfl⟩
  | bindings declarators =>
    rw [Declaration.bound, List.map_flatMap, List.mem_flatMap]
    constructor
    · rintro ⟨d, member, inDeclarator⟩
      exact .variable member (d.mem_bound_iff.1 inDeclarator)
    · rintro (_ | _ | _ | ⟨member, binds⟩)
      exact ⟨_, member, (Declarator.mem_bound_iff _).2 binds⟩
  | disposable _ | typeOnly => exact iff_of_false List.not_mem_nil nofun

/-- A name is declared without being exported, or with it. -/
theorem Item.declares_iff (item : Item) :
    item.Declares n ↔ n ∈ item.plainNames ∨ n ∈ item.inlineBound.map (·.1) := by
  constructor
  · rintro (member | declares | declares)
    · exact Or.inl member
    · exact Or.inl ((Declaration.mem_bound_iff _).2 declares)
    · exact Or.inr ((Declaration.mem_bound_iff _).2 declares)
  · obtain ⟨span, kind⟩ := item
    rintro (member | member)
    · unfold Item.plainNames at member
      dsimp only at member
      split at member
      · exact .imported member
      · exact .plain ((Declaration.mem_bound_iff _).1 member)
      · cases member
    · unfold Item.inlineBound at member
      dsimp only at member
      split at member
      · exact .exported ((Declaration.mem_bound_iff _).1 member)
      · cases member

private theorem Item.declares_of_mem_bound {item : Item} {bound : Bound}
    (declares : (n, bound) ∈ item.bound) : item.Declares n := by
  rw [Item.declares_iff]
  have named : n ∈ item.bound.map (·.1) := List.mem_map_of_mem (f := (·.1)) declares
  unfold Item.bound Item.declaration? at named
  unfold Item.plainNames Item.inlineBound
  split at named <;> rename_i found
  · split at found <;> rename_i kind <;> cases found
    · rw [kind]
      exact Or.inl named
    · rw [kind]
      exact Or.inr named
  · cases named

namespace Subject

variable {s : Subject} {mode : ExportMode} {exports : Exports}

private theorem declares_of_entry {localName : String} (isBound : (s.entry localName).isBound = true) :
    ∃ item ∈ s.outline.items, item.Declares (s.entry localName).localName := by
  obtain free | ⟨item, member, bound, declares, _⟩ := s.origin_entry localName
  · rw [free] at isBound
    cases isBound
  · exact ⟨item, member, Item.declares_of_mem_bound declares⟩

/-- What is exported, under any name, is declared by an item if it is bound. -/
theorem declares_of_exported {exported : String × ExportEntry} (listed : exported ∈ s.exportList)
    (isBound : exported.2.isBound = true) :
    ∃ item ∈ s.outline.items, item.Declares exported.2.localName := by
  obtain ⟨item, member, listed⟩ := List.mem_flatMap.1 listed
  obtain inline | clause := List.mem_append.1 listed
  · obtain ⟨⟨name, bound⟩, declares, rfl⟩ := List.mem_map.1 inline
    exact ⟨item, member, item.declares_iff.2 (Or.inr (List.mem_map_of_mem (f := (·.1)) declares))⟩
  · obtain ⟨specifier, _, found⟩ := List.mem_filterMap.1 clause
    unfold clauseExport? at found
    split at found <;> cases found
    exact declares_of_entry isBound

/-- An item that declares a name and exports it lists it. -/
theorem exists_listed_of_inline {item : Item} (member : item ∈ s.outline.items)
    (declares : n ∈ item.inlineBound.map (·.1)) :
    ∃ exported ∈ s.exportList, exported.2.isBound = true ∧ exported.2.localName = n := by
  obtain ⟨⟨name, bound⟩, inItem, rfl⟩ := List.mem_map.1 declares
  refine ⟨(name, s.boundEntry name bound item.span.start), List.mem_flatMap.2 ⟨item, member, ?_⟩,
    rfl, rfl⟩
  exact List.mem_append_left _ (List.mem_map.2 ⟨_, inItem, rfl⟩)

/-- A name is found to be declared if and only if an item imports it, or declares it as a variable,
a function, a class or an enumeration, whether the declaration is exported or not. So a name that is
bound by a default export, or for a variable that is to be disposed of, is found if and only if it is
declared in another way too. -/
theorem isDeclared_iff (accepted : s.exports mode = .ok exports)
    (once : (s.exportList.map (·.1)).Nodup) (n : String) :
    (exports.isDeclared n = true ↔ ∃ item ∈ s.outline.items, item.Declares n) ∧
      ((exports.isDeclared n = true ↔ ∃ item ∈ s.outline.items, item.Binds n) ↔
        ∀ item ∈ s.outline.items, item.Binds n → ∃ other ∈ s.outline.items, other.Declares n) := by
  obtain ⟨entries, declared⟩ := tables_of_exports accepted
  rw [Entries.putAll_eq_self once] at entries
  have found : exports.isDeclared n = true ↔ ∃ item ∈ s.outline.items, item.Declares n := by
    rw [Exports.isDeclared, Bool.or_eq_true, List.contains_iff_mem, declared, List.mem_flatMap,
      entries, List.any_eq_true]
    constructor
    · rintro (⟨item, member, plain⟩ | ⟨exported, listed, isBound⟩)
      · exact ⟨item, member, item.declares_iff.2 (Or.inl plain)⟩
      · obtain ⟨bound, localName⟩ := Bool.and_eq_true_iff.1 isBound
        exact eq_of_beq localName ▸ declares_of_exported listed bound
    · rintro ⟨item, member, declares⟩
      obtain plain | inline := item.declares_iff.1 declares
      · exact Or.inl ⟨item, member, plain⟩
      · obtain ⟨exported, listed, bound, localName⟩ := exists_listed_of_inline member inline
        exact Or.inr ⟨exported, listed, Bool.and_eq_true_iff.2 ⟨bound, beq_iff_eq.2 localName⟩⟩
  refine ⟨found, fun same item member binds => ?_, fun otherwise => found.trans ⟨?_, ?_⟩⟩
  · exact found.1 (same.2 ⟨item, member, binds⟩)
  · exact fun ⟨item, member, declares⟩ => ⟨item, member, .declared declares⟩
  · exact fun ⟨item, member, binds⟩ => otherwise item member binds

/-- The last of a pattern's names is found, and an item declares it. -/
theorem isDeclared_iff_pattern :
    let source := "import a from 'm';\nconst \x7b b: [c = 1, ...d] \x7d = a;\nexport \x7b d as e \x7d;"
    ∃ outline exports, parse true source = .ok outline ∧
      (⟨outline, source, true⟩ : Subject).exports .standalone = .ok exports ∧
      ((⟨outline, source, true⟩ : Subject).exportList.map (·.1)).Nodup ∧
      exports.isDeclared "d" = true ∧ ∃ item ∈ outline.items, item.Declares "d" := by
  intro source
  have checked : (parse true source).toOption.any (fun outline =>
      ((⟨outline, source, true⟩ : Subject).exports .standalone).toOption.any fun exports =>
        decide (((⟨outline, source, true⟩ : Subject).exportList.map (·.1)).Nodup ∧
          exports.isDeclared "d" = true)) = true := by decide +kernel
  obtain ⟨outline, read, checked⟩ := exists_ok_of_check checked
  obtain ⟨exports, accepted, checked⟩ := exists_ok_of_check checked
  obtain ⟨once, found⟩ := of_decide_eq_true checked
  exact ⟨outline, exports, read, accepted, once, found, (isDeclared_iff accepted once "d").1.1 found⟩

/-- A function that is exported by default is bound and not found. -/
theorem default_function_missed :
    let source := "export default function foo() \x7b\x7d"
    ∃ outline exports, parse true source = .ok outline ∧
      (⟨outline, source, true⟩ : Subject).exports .standalone = .ok exports ∧
      ((⟨outline, source, true⟩ : Subject).exportList.map (·.1)).Nodup ∧
      exports.isDeclared "foo" = false ∧ ∃ item ∈ outline.items, item.Binds "foo" := by
  intro source
  have checked : (parse true source).toOption.any (fun outline =>
      ((⟨outline, source, true⟩ : Subject).exports .standalone).toOption.any fun exports =>
        decide (((⟨outline, source, true⟩ : Subject).exportList.map (·.1)).Nodup ∧
          exports.isDeclared "foo" = false ∧
          outline.items.any (·.defaultName? == some "foo") = true)) = true := by decide +kernel
  obtain ⟨outline, read, checked⟩ := exists_ok_of_check checked
  obtain ⟨exports, accepted, checked⟩ := exists_ok_of_check checked
  obtain ⟨once, missed, bound⟩ := of_decide_eq_true checked
  obtain ⟨item, member, named⟩ := List.any_eq_true.1 bound
  exact ⟨outline, exports, read, accepted, once, missed, item, member, .byDefault (eq_of_beq named)⟩

end Subject

end TypedSvelte.Script
