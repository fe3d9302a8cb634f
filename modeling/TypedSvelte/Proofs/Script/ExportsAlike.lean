import Mathlib.Data.List.Forall2
import TypedSvelte.Proofs.Position.Splicing
import TypedSvelte.Proofs.Script.ClauseNames
import TypedSvelte.Proofs.Script.ExportSketch

/-!
# Scripts that export alike

Two scripts may have items that correspond one to one, with the same names declared and exported by
each (`ItemsAlike`). What the names are bound to may differ, by a relation `R`. Then they export the
same names, and what these are bound to differs by `R` again (`exports_alike`).
-/
namespace TypedSvelte.Script

/-- The same names are declared in the same order, bound to what `R` relates. -/
def BoundAlike (R : Bound → Bound → Prop) : List (String × Bound) → List (String × Bound) → Prop :=
  List.Forall₂ fun a b => a.1 = b.1 ∧ R a.2 b.2

/-- The name within the script and the exported name that a part of a clause gives it. -/
def Subject.clauseNames? (s : Subject) : ExportSpecifier → Option (String × String)
  | .named (.ident localName) exported false => some (localName, s.exportedName localName exported)
  | .named (.string _) _ false | .named _ _ true | .everything => none

variable {R : Bound → Bound → Prop} {s other : Subject}

/-- An item declares and exports the same names in one script as another item does in another one. -/
structure ItemAlike (R : Bound → Bound → Prop) (s other : Subject) (a b : Item) : Prop where
  declared : BoundAlike R a.bound b.bound
  inline : BoundAlike R a.inlineBound b.inlineBound
  clause : b.specifiers.filterMap other.clauseNames? = a.specifiers.filterMap s.clauseNames?
  plain : b.plainNames = a.plainNames
  accepted : a.fault? .standalone = none → b.fault? .standalone = none

/-- The same name is exported, bound to what `R` relates if it is declared. -/
def EntryAlike (R : Bound → Bound → Prop) (s other : Subject) (a b : ExportEntry) : Prop :=
  (∃ localName, a = Subject.freeEntry localName ∧ b = Subject.freeEntry localName) ∨
    ∃ localName first second start otherStart, R first second ∧
      a = s.boundEntry localName first start ∧ b = other.boundEntry localName second otherStart

/-- The first values of a name correspond if all do. -/
theorem lookup_alike {α β : Type} {P : α → β → Prop} {first : List (String × α)}
    {second : List (String × β)} (alike : List.Forall₂ (fun a b => a.1 = b.1 ∧ P a.2 b.2) first second)
    (name : String) : Option.Rel P (first.lookup name) (second.lookup name) := by
  induction alike with
  | nil => exact .none
  | @cons a b as bs same _ ih =>
    obtain ⟨key, value⟩ := a
    obtain ⟨_, otherValue⟩ := b
    obtain ⟨rfl, related⟩ := same
    rw [List.lookup_cons, List.lookup_cons]
    cases name == key with
    | true => exact .some related
    | false => exact ih

namespace Subject

private theorem bindings_eq (s : Subject) : s.bindings =
    s.outline.items.flatMap fun item => item.bound.map fun b => (b.1, b.2, item.span.start) := by
  unfold bindings Item.bound
  refine congrArg (List.flatMap · _) (funext fun item => ?_)
  cases item.declaration? <;> rfl

private theorem clauseExport?_eq (s : Subject) (specifier : ExportSpecifier) :
    s.clauseExport? specifier =
      (s.clauseNames? specifier).map fun names => (names.2, s.entry names.1) := by
  cases specifier with
  | everything => rfl
  | named source exported isTypeOnly => cases source <;> cases isTypeOnly <;> rfl

private theorem map_eq_of_forall₂ {α β γ : Type} {f : α → γ} {g : β → γ} {first : List α}
    {second : List β} (same : List.Forall₂ (fun a b => g b = f a) first second) :
    second.map g = first.map f := by
  induction same with
  | nil => rfl
  | cons here _ ih => rw [List.map_cons, List.map_cons, here, ih]

private theorem accepted_alike {first second : List Item}
    (items : List.Forall₂ (ItemAlike R s other) first second)
    (accepted : first.findSome? (Item.fault? .standalone) = none) :
    second.findSome? (Item.fault? .standalone) = none := by
  induction items with
  | nil => rfl
  | cons same _ ih =>
    obtain ⟨here, later⟩ := List.forall_mem_cons.1 (List.findSome?_eq_none_iff.1 accepted)
    rw [List.findSome?_cons, same.accepted here]
    exact ih (List.findSome?_eq_none_iff.2 later)

/-- The items of two scripts correspond. -/
def ItemsAlike (R : Bound → Bound → Prop) (s other : Subject) : Prop :=
  List.Forall₂ (ItemAlike R s other) s.outline.items other.outline.items

variable (alike : ItemsAlike R s other)

include alike

private theorem bindings_alike : List.Forall₂
    (fun a b : String × Bound × Nat => a.1 = b.1 ∧ R a.2.1 b.2.1) s.bindings other.bindings := by
  rw [bindings_eq, bindings_eq]
  refine List.rel_flatMap alike fun a b same => ?_
  exact List.forall₂_map_left_iff.2 (List.forall₂_map_right_iff.2 same.declared)

private theorem entry_alike (localName : String) :
    EntryAlike R s other (s.entry localName) (other.entry localName) := by
  have found := lookup_alike (P := fun a b : Bound × Nat => R a.1 b.1) (bindings_alike alike) localName
  unfold Subject.entry
  revert found
  generalize s.bindings.lookup localName = a
  generalize other.bindings.lookup localName = b
  rintro (⟨related⟩ | _)
  · exact .inr ⟨localName, _, _, _, _, related, rfl, rfl⟩
  · exact .inl ⟨localName, rfl, rfl⟩

private theorem exportList_alike : List.Forall₂
    (fun a b => a.1 = b.1 ∧ EntryAlike R s other a.2 b.2) s.exportList other.exportList := by
  refine List.rel_flatMap alike fun a b same => List.rel_append ?_ ?_
  · refine List.forall₂_map_left_iff.2 (List.forall₂_map_right_iff.2 ?_)
    refine same.inline.imp fun first second related => ⟨related.1, .inr ?_⟩
    exact ⟨first.1, _, _, _, _, related.2, rfl, by rw [related.1]⟩
  · have clause (s : Subject) (item : Item) : item.specifiers.filterMap s.clauseExport? =
        (item.specifiers.filterMap s.clauseNames?).map fun names => (names.2, s.entry names.1) := by
      rw [List.map_filterMap]
      exact congrArg (List.filterMap · _) (funext s.clauseExport?_eq)
    rw [clause, clause, same.clause]
    refine List.forall₂_map_left_iff.2 (List.forall₂_map_right_iff.2 ?_)
    exact List.forall₂_same.2 fun names _ => ⟨rfl, entry_alike alike names.1⟩

/-- Scripts that correspond item by item export the same names, bound to what corresponds. -/
theorem exports_alike {exports : Exports} (accepted : s.exports .standalone = .ok exports) :
    ∃ others, other.exports .standalone = .ok others ∧ others.declared = exports.declared ∧
      others.entries.names = exports.entries.names ∧
      ∀ name, Option.Rel (EntryAlike R s other) (exports.entries.get? name) (others.entries.get? name) := by
  have list := exportList_alike alike
  have names : other.exportList.map (·.1) = s.exportList.map (·.1) :=
    map_eq_of_forall₂ (list.imp fun _ _ same => same.1.symm)
  have plain : other.outline.items.flatMap Item.plainNames = s.outline.items.flatMap Item.plainNames := by
    rw [List.flatMap_def, List.flatMap_def, map_eq_of_forall₂ (alike.imp fun _ _ same => same.plain)]
  rw [exports_eq, faultOr_eq_ok_iff] at accepted
  obtain ⟨unfaulted, rfl⟩ := accepted
  refine ⟨_, (exports_eq ..).trans (faultOr_eq_ok_iff.2 ⟨accepted_alike alike unfaulted, rfl⟩),
    plain, ?_, fun name => ?_⟩
  · rw [Entries.names_putAll, Entries.names_putAll, names]
  · rw [Entries.get?_putAll, Entries.get?_putAll]
    exact lookup_alike (List.forall₂_reverse_iff.2 list) name

end Subject

section

variable {f g : Nat → Nat} {kind : ItemKind}

private theorem clauseNames?_moved {size : Nat}
    (names : ∀ localName (name : ExportName), (∀ n ∈ name.ends, n ≤ size) →
      other.exportedName localName (some (name.move g)) =
        s.exportedName localName (some (name.move f)))
    (e : ExportSpecifier) (inside : ∀ n ∈ e.ends, n ≤ size) :
    other.clauseNames? (e.move g) = s.clauseNames? (e.move f) := by
  cases e with
  | everything => rfl
  | named source exported isTypeOnly =>
    cases source with
    | string => cases isTypeOnly <;> rfl
    | ident localName =>
      cases isTypeOnly with
      | true => rfl
      | false =>
        cases exported with
        | none => rfl
        | some name =>
          have same := names localName name fun n member => inside n (by simpa [ExportSpecifier.ends,
            ExportName.ends] using member)
          exact congrArg (fun exportedName => some (localName, exportedName)) same

private theorem fault?_moved {start otherStart : Nat} {e : ExportSpecifier}
    (accepted : (e.move f).fault? .standalone start = none) :
    (e.move g).fault? .standalone otherStart = none := by
  cases e with
  | everything => rfl
  | named source exported isTypeOnly =>
    cases isTypeOnly with
    | true => cases source <;> rfl
    | false =>
      cases source with
      | string => cases accepted
      | ident => rfl

/-- An item that stands elsewhere in another script is alike if what it binds names to is, and if the
strings in it are the same. -/
theorem alike_moved {size : Nat} (first second : Span)
    (bound : ∀ d ∈ (Item.mk first kind).bound, R (d.2.move f) (d.2.move g))
    (inside : ∀ n ∈ kind.ends, n ≤ size)
    (names : ∀ localName (name : ExportName), (∀ n ∈ name.ends, n ≤ size) →
      other.exportedName localName (some (name.move g)) =
        s.exportedName localName (some (name.move f))) :
    ItemAlike R s other ⟨first, kind.move f⟩ ⟨second, kind.move g⟩ := by
  have moved {d : Declaration} (each : ∀ b ∈ d.bound, R (b.2.move f) (b.2.move g)) :
      BoundAlike R (d.move f).bound (d.move g).bound := by
    rw [d.bound_move, d.bound_move]
    refine List.forall₂_map_left_iff.2 (List.forall₂_map_right_iff.2 ?_)
    exact List.forall₂_same.2 fun b member => ⟨rfl, each b member⟩
  have boundNames (d : Declaration) : (d.move g).bound.map (·.1) = (d.move f).bound.map (·.1) := by
    rw [d.bound_move, d.bound_move, List.map_map, List.map_map]
    rfl
  cases kind with
  | statement content =>
    cases content with
    | declaration d => exact ⟨moved bound, .nil, rfl, boundNames d, fun _ => rfl⟩
    | _ => exact ⟨.nil, .nil, rfl, rfl, fun _ => rfl⟩
  | exportDeclaration start d => exact ⟨moved bound, moved bound, rfl, rfl, fun _ => rfl⟩
  | exportClause isTypeOnly fromModule specifiers =>
    have each (e : ExportSpecifier) (member : e ∈ specifiers) :
        other.clauseNames? (e.move g) = s.clauseNames? (e.move f) :=
      clauseNames?_moved names e fun n ends =>
        inside n (List.mem_flatMap.2 ⟨e, member, ends⟩)
    cases isTypeOnly with
    | true => exact ⟨.nil, .nil, rfl, rfl, fun _ => rfl⟩
    | false =>
      cases fromModule with
      | true => exact ⟨.nil, .nil, rfl, rfl, fun _ => rfl⟩
      | false =>
        refine ⟨.nil, .nil, ?_, rfl, fun accepted => ?_⟩
        · change (specifiers.map _).filterMap _ = (specifiers.map _).filterMap _
          rw [List.filterMap_map, List.filterMap_map]
          exact List.filterMap_congr each
        · refine List.findSome?_eq_none_iff.2 (List.forall_mem_map.2 fun e member => ?_)
          have before := List.findSome?_eq_none_iff.1 accepted _ (List.mem_map_of_mem member)
          exact fault?_moved before
  | imports | exportAll | exportDefault | other => exact ⟨.nil, .nil, rfl, rfl, fun accepted => accepted⟩

/-- What two texts share can be cut out of either. -/
theorem slice?_shared {first second : String} {a b : Nat} {text x y : List Char}
    (here : Resumes first.toList a (text ++ x)) (there : Resumes second.toList b (text ++ y))
    {i j : Nat} (start : i ≤ byteSize text) (stop : j ≤ byteSize text) :
    slice? first (a + i) (a + j) = slice? second (b + i) (b + j) := by
  have within {whole : String} {offset : Nat} {rest : List Char}
      (resumes : Resumes whole.toList offset (text ++ rest)) :
      slice? whole (offset + i) (offset + j) = slice? (String.ofList text) i j := by
    obtain ⟨before, parts, rfl⟩ := resumes
    have whole : whole = String.ofList before ++ (String.ofList text ++ String.ofList rest) := by
      rw [← String.ofList_append, ← String.ofList_append, ← parts, String.ofList_toList]
    rw [whole, ← utf8ByteSize_ofList before, slice?_append_right, slice?_append_left]
    · rwa [utf8ByteSize_ofList]
    · rwa [utf8ByteSize_ofList]
  rw [within here, within there]

/-- A name in a clause is the same where the clause stands in another text. -/
theorem exportedName_shifted {a b : Nat} {text x y : List Char}
    (here : Resumes s.source.toList a (text ++ x)) (there : Resumes other.source.toList b (text ++ y))
    (localName : String) {name : ExportName} (inside : ∀ n ∈ name.ends, n ≤ byteSize text) :
    other.exportedName localName (some (name.move (· + b))) =
      s.exportedName localName (some (name.move (· + a))) := by
  cases name with
  | ident => rfl
  | string place =>
    have stop : place.stop ≤ byteSize text := inside _ (List.mem_singleton_self _)
    change (slice? other.source (place.start + b + 1) (place.stop + b - 1)).getD "" =
      (slice? s.source (place.start + a + 1) (place.stop + a - 1)).getD ""
    by_cases filled : place.start < place.stop
    · have same := slice?_shared here there (i := place.start + 1) (j := place.stop - 1)
        (by omega) (by omega)
      rw [show place.start + b + 1 = b + (place.start + 1) by omega,
        show place.stop + b - 1 = b + (place.stop - 1) by omega, ← same,
        show place.start + a + 1 = a + (place.start + 1) by omega,
        show place.stop + a - 1 = a + (place.stop - 1) by omega]
    · have empty (source : String) (offset : Nat) :
          slice? source (place.start + offset + 1) (place.stop + offset - 1) = none := by
        refine Option.eq_none_iff_forall_ne_some.2 fun found slice => ?_
        have size := stop_of_slice? slice
        omega
      rw [empty, empty]

end

end TypedSvelte.Script
