import TypedSvelte.Proofs.Script.Accuracy
import TypedSvelte.Proofs.Script.BoundedScripts
import TypedSvelte.Proofs.Script.ExportOrigin

/-!
# Where exports lie

What an item binds a name to lies where the item lies (`within_bound`), and the search for exports
points at an item, or at a name in it, when it refuses one (`exports_fail`).
-/
namespace TypedSvelte.Script

variable {size : Nat}

instance : Located Bound where
  Within size
    | .function shape => Within size shape
    | .variable declarator => Within size declarator
    | .pattern _ | .other => True

theorem Bound.within_variable {declarator : Declarator} :
    Within size (Bound.variable declarator) ↔ Within size declarator := .rfl

/-- A name is bound to what its declarator holds. -/
theorem Declarator.within_bound {d : Declarator} (within : Within size d) {name : String}
    {bound : Bound} (declares : (name, bound) ∈ d.bound) : Within size bound := by
  unfold Declarator.bound at declares
  split at declares
  · cases List.mem_singleton.1 declares
    exact within
  · obtain ⟨_, _, same⟩ := List.mem_map.1 declares
    cases same
    exact True.intro

theorem Declaration.within_bound {d : Declaration} (within : Within size d) {name : String}
    {bound : Bound} (declares : (name, bound) ∈ d.bound) : Within size bound := by
  cases d with
  | function _ shape =>
    cases List.mem_singleton.1 declares
    exact within
  | classNamed _ | enum _ =>
    cases List.mem_singleton.1 declares
    exact True.intro
  | bindings declarators =>
    obtain ⟨declarator, member, inDeclarator⟩ := List.mem_flatMap.1 declares
    exact Declarator.within_bound (within declarator member) inDeclarator
  | disposable _ | typeOnly => cases declares

theorem Item.within_bound {item : Item} (within : Within size item) {name : String} {bound : Bound}
    (declares : (name, bound) ∈ item.bound) : Within size bound := by
  have ofKind := (within_item.1 within).2
  unfold Item.bound Item.declaration? at declares
  split at declares
  · rename_i d found
    split at found
    · rename_i kind
      cases found
      rw [kind] at ofKind
      exact Declaration.within_bound ofKind declares
    · rename_i kind
      cases found
      rw [kind] at ofKind
      exact Declaration.within_bound ofKind.2 declares
    · cases found
  · cases declares

private theorem Value.within_ungrouped {value : Value} (within : Within size value) :
    Within size value.ungrouped := by
  fun_induction Value.ungrouped value with
  | case1 inner ih => exact ih (Value.within_group.1 within)
  | case2 value plain => exact within

theorem Declarator.within_function? {d : Declarator} (within : Within size d)
    {shape : FunctionShape} (isFunction : d.function? = some shape) : Within size shape := by
  have initial := within_option_map (within_declarator.1 within).2 fun _ => Value.within_ungrouped
  unfold Declarator.function? at isFunction
  split at isFunction
  · rename_i found
    cases isFunction
    rw [found] at initial
    exact Value.within_arrow.1 (within_some.1 initial)
  · rename_i found
    cases isFunction
    rw [found] at initial
    exact Value.within_function.1 (within_some.1 initial)
  · cases isFunction

theorem Declarator.within_place? {d : Declarator} (within : Within size d) {place : Span}
    (named : d.place? = some place) : Within size place := by
  have target := (within_declarator.1 within).1
  unfold Declarator.place? at named
  split at named
  · rename_i name
    cases named
    rw [name] at target
    exact (Pattern.within_name.1 target).1
  · cases named

namespace Subject

variable {s : Subject} {mode : ExportMode}

private theorem refuse_fails {fault : ExportFault} {offset : Nat} (exports : Exports)
    (inside : offset ≤ size) :
    FailsWith (fun error => error.offset ≤ size) (refuse mode fault offset exports) := by
  cases mode with
  | component => exact failsWith_error inside
  | standalone => exact failsWith_ok exports

private theorem addSpecifier_fails {start : Nat} (inside : start ≤ size) (exports : Exports)
    {specifier : ExportSpecifier} (within : Within size specifier) :
    FailsWith (fun error => error.offset ≤ size) (s.addSpecifier mode start exports specifier) := by
  cases specifier with
  | everything => exact refuse_fails exports inside
  | named source exported isTypeOnly =>
    cases isTypeOnly with
    | true => exact failsWith_ok exports
    | false =>
      cases source with
      | string place =>
        have atName : place.start ≤ size ∧ place.stop ≤ size := within.1
        exact failsWith_error atName.1
      | ident localName => exact failsWith_ok _

private theorem addItem_fails (exports : Exports) {item : Item} (within : Within size item) :
    FailsWith (fun error => error.offset ≤ size) (s.addItem mode exports item) := by
  have inside : item.span.start ≤ size := within.1.1
  have ofKind := (within_item.1 within).2
  unfold addItem
  dsimp only
  split
  case h_6 specifiers kind =>
    rw [kind] at ofKind
    refine failsWith_foldlM (fun exports specifier member => ?_) _
    exact addSpecifier_fails inside exports (ofKind specifier member)
  case h_5 | h_7 | h_8 => exact refuse_fails exports inside
  all_goals exact failsWith_ok _

/-- An export is refused where it stands in the script. -/
theorem exports_fail (within : Within size s.outline.items) :
    FailsWith (fun error => error.offset ≤ size) (s.exports mode) :=
  failsWith_foldlM (fun exports item member => addItem_fails exports (within item member)) _

end Subject

end TypedSvelte.Script
