import TypedSvelte.Proofs.Script.ExportTables
import TypedSvelte.Script.Parse

/-!
# Scripts of components and other modules

A script that a component may have is read in the same way as one that stands alone. What a
component is refused for besides are exports that give no local name, and the error is placed at the
first item that has one (`component_restricts_standalone`).
-/
namespace TypedSvelte.Script

def ExportSpecifier.isNamed : ExportSpecifier → Bool
  | .named _ _ _ => true
  | .everything => false

/-- The item exports something that has no local name: names of another module, all that there is,
or a default. Exports of types alone do not count. -/
def Item.lacksLocalName (item : Item) : Bool :=
  match item.kind with
  | .exportClause false fromModule specifiers => fromModule || !specifiers.all (·.isNamed)
  | .exportAll | .exportDefault _ _ => true
  | .exportClause true _ _ | .imports _ | .statement _ | .exportDeclaration _ _ | .other => false

variable {start : Nat}

/-- What is found by one test is found by a test that answers wherever that does. -/
theorem isSome_findSome?_of_imp {α β : Type} {test other : α → Option β} {as : List α}
    (answers : ∀ a, (test a).isSome = true → (other a).isSome = true)
    (found : (as.findSome? test).isSome = true) : (as.findSome? other).isSome = true := by
  rw [List.isSome_findSome?] at found ⊢
  obtain ⟨a, member, here⟩ := List.any_eq_true.1 found
  exact List.any_eq_true.2 ⟨a, member, answers a here⟩

/-- A part of a clause that is at fault in any script is at fault in a component. -/
theorem ExportSpecifier.isSome_fault? (specifier : ExportSpecifier)
    (faulty : (specifier.fault? .standalone start).isSome = true) :
    (specifier.fault? .component start).isSome = true := by
  unfold ExportSpecifier.fault? at faulty ⊢
  split at faulty
  · cases faulty
  · rfl
  · cases faulty
  · cases faulty

/-- A part of a clause that is at fault in components alone is unnamed, and the fault is placed at the
clause. -/
theorem ExportSpecifier.fault?_component {specifier : ExportSpecifier}
    (faultless : specifier.fault? .standalone start = none) :
    specifier.fault? .component start =
      if specifier.isNamed then none else some ⟨.unsupportedSpecifier, start⟩ := by
  unfold ExportSpecifier.fault? at faultless ⊢
  split at faultless
  · rfl
  · cases faultless
  · rfl
  · rfl

/-- The parts of a clause are at fault in components alone if one of them is unnamed. -/
theorem findSome?_component {specifiers : List ExportSpecifier}
    (faultless : specifiers.findSome? (ExportSpecifier.fault? .standalone start) = none) :
    specifiers.findSome? (ExportSpecifier.fault? .component start) =
      if specifiers.all (·.isNamed) then none else some ⟨.unsupportedSpecifier, start⟩ := by
  induction specifiers with
  | nil => rfl
  | cons specifier rest ih =>
    obtain ⟨here, later⟩ := List.forall_mem_cons.1 (List.findSome?_eq_none_iff.1 faultless)
    rw [List.findSome?_cons, List.all_cons, specifier.fault?_component here]
    cases specifier.isNamed with
    | false => rfl
    | true => exact ih (List.findSome?_eq_none_iff.2 later)

namespace Item

/-- An item that is at fault in any script is at fault in a component. -/
theorem isSome_fault? (item : Item) (faulty : (item.fault? .standalone).isSome = true) :
    (item.fault? .component).isSome = true := by
  unfold fault? at faulty ⊢
  split at faulty
  case h_2 => exact isSome_findSome?_of_imp ExportSpecifier.isSome_fault? faulty
  all_goals cases faulty

/-- An item that is at fault in components alone lacks a local name, and the fault is placed where it
begins. -/
theorem fault?_component {item : Item} (faultless : item.fault? .standalone = none) :
    (item.fault? .component).map (·.offset) =
      if item.lacksLocalName then some item.span.start else none := by
  obtain ⟨span, kind⟩ := item
  cases kind with
  | exportClause isTypeOnly fromModule specifiers =>
    cases isTypeOnly with
    | true => rfl
    | false =>
      cases fromModule with
      | true => rfl
      | false =>
        change Option.map _ (specifiers.findSome? (ExportSpecifier.fault? .component span.start)) = _
        rw [findSome?_component faultless]
        change _ = if (!specifiers.all (·.isNamed)) = true then _ else _
        cases specifiers.all (·.isNamed) <;> rfl
  | imports _ | statement _ | exportDeclaration _ _ | exportAll | exportDefault _ _ | other => rfl

/-- The first item that is at fault in components alone is the first that lacks a local name. -/
theorem findSome?_fault? {items : List Item}
    (faultless : items.findSome? (Item.fault? .standalone) = none) :
    (items.findSome? (Item.fault? .component)).map (·.offset) =
      (items.find? Item.lacksLocalName).map (·.span.start) := by
  induction items with
  | nil => rfl
  | cons item rest ih =>
    obtain ⟨here, later⟩ := List.forall_mem_cons.1 (List.findSome?_eq_none_iff.1 faultless)
    have fault := item.fault?_component here
    rw [List.findSome?_cons, List.find?_cons]
    cases lacks : item.lacksLocalName with
    | true =>
      rw [lacks, if_pos rfl] at fault
      obtain ⟨error, found, offset⟩ := Option.map_eq_some_iff.1 fault
      rw [found]
      exact congrArg some offset
    | false =>
      rw [lacks, if_neg Bool.false_ne_true] at fault
      rw [Option.map_eq_none_iff.1 fault]
      exact ih (List.findSome?_eq_none_iff.2 later)

end Item

namespace Subject

/-- Components restrict what scripts may export. If a script is accepted in a component, it has the
same exports and declared names on its own; if it is refused on its own, so it is in a component. A
script that is accepted on its own is refused in a component exactly if one of its items lacks a
local name, and the error is placed where the first of them begins. -/
theorem component_restricts_standalone (s : Subject) :
    (∀ exports, s.exports .component = .ok exports → s.exports .standalone = .ok exports) ∧
    (∀ error, s.exports .standalone = .error error →
      ∃ other, s.exports .component = .error other) ∧
    ∀ exports, s.exports .standalone = .ok exports → ∀ offset,
      (∃ fault, s.exports .component = .error ⟨fault, offset⟩) ↔
        (s.outline.items.find? Item.lacksLocalName).map (·.span.start) = some offset := by
  -- Only the faults depend on the mode, not the tables.
  have tables := s.exports_eq
  have faulty := @isSome_findSome?_of_imp _ _ _ _ s.outline.items Item.isSome_fault?
  refine ⟨fun exports accepted => ?_, fun error refused => ?_, fun exports accepted offset => ?_⟩
  · rw [tables, faultOr_eq_ok_iff] at accepted ⊢
    refine ⟨?_, accepted.2⟩
    rw [← Option.not_isSome_iff_eq_none]
    intro found
    rw [accepted.1] at faulty
    cases faulty found
  · rw [tables] at refused ⊢
    cases found : s.outline.items.findSome? (Item.fault? .standalone) with
    | none =>
      rw [found] at refused
      cases refused
    | some fault =>
      obtain ⟨other, isFault⟩ := Option.isSome_iff_exists.1 (faulty (found ▸ rfl))
      exact ⟨other, by rw [isFault]; rfl⟩
  · rw [tables, faultOr_eq_ok_iff] at accepted
    rw [tables, ← Item.findSome?_fault? accepted.1, Option.map_eq_some_iff]
    cases s.outline.items.findSome? (Item.fault? .component) with
    | none => exact iff_of_false nofun nofun
    | some error =>
      constructor
      · rintro ⟨fault, made⟩
        exact ⟨error, rfl, congrArg ExportError.offset (Except.error.inj made)⟩
      · rintro ⟨_, ⟨⟩, rfl⟩
        exact ⟨error.fault, rfl⟩

/-- A script that a component may have; an outline that is refused wherever it is; and a script that
a component is refused for at the second item, not for the types that are passed on before it, and
not for the default export behind it. -/
theorem component_restricts_standalone_first :
    let accepted := "let a = 1;\nexport let b = 2;\nexport \x7b a as c \x7d;"
    let refused : Subject :=
      ⟨⟨[⟨⟨0, 16⟩, .exportClause false false [.named (.string ⟨9, 13⟩) none false]⟩], []⟩,
        "export \x7b 'b' \x7d;", true⟩
    let passing := "export type \x7b T \x7d from './t';\nexport * from './a';\nexport default 1;"
    (∃ outline exports, parse true accepted = .ok outline ∧
      (⟨outline, accepted, true⟩ : Subject).exports .component = .ok exports ∧
      (⟨outline, accepted, true⟩ : Subject).exports .standalone = .ok exports) ∧
    (∃ error, refused.exports .standalone = .error ⟨.stringWithoutModule, 9⟩ ∧
      refused.exports .component = .error error) ∧
    ∃ outline exports, parse true passing = .ok outline ∧
      (⟨outline, passing, true⟩ : Subject).exports .standalone = .ok exports ∧
      ∃ fault, (⟨outline, passing, true⟩ : Subject).exports .component = .error ⟨fault, 30⟩ := by
  intro accepted refused passing
  refine ⟨?_, ?_, ?_⟩
  · have checked : (parse true accepted).toOption.any (fun outline =>
        ((⟨outline, accepted, true⟩ : Subject).exports .component).toOption.any fun _ => true) =
        true := by
      decide +kernel
    obtain ⟨outline, read, checked⟩ := exists_ok_of_check checked
    obtain ⟨exports, made, -⟩ := exists_ok_of_check checked
    exact ⟨outline, exports, read, made, (component_restricts_standalone _).1 exports made⟩
  · obtain ⟨error, also⟩ := (component_restricts_standalone refused).2.1 _ rfl
    exact ⟨error, rfl, also⟩
  · have checked : (parse true passing).toOption.any (fun outline =>
        ((⟨outline, passing, true⟩ : Subject).exports .standalone).toOption.any fun _ =>
          (outline.items.find? Item.lacksLocalName).map (·.span.start) == some 30) = true := by
      decide +kernel
    obtain ⟨outline, read, checked⟩ := exists_ok_of_check checked
    obtain ⟨exports, made, first⟩ := exists_ok_of_check checked
    exact ⟨outline, exports, read, made,
      ((component_restricts_standalone _).2.2 exports made 30).2 (eq_of_beq first)⟩

end Subject

end TypedSvelte.Script
