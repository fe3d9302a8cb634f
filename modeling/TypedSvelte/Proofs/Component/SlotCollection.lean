import TypedSvelte.Proofs.Component.SlotValues
import TypedSvelte.Proofs.Markup.NodePlaces
import TypedSvelte.Proofs.Outcome
import TypedSvelte.Proofs.Text.PutValues

/-!
# The slots of a template

The slots of a template are those of its slot elements at any depth, in the order of the document:
each name in the place of its first mention, with the properties of its last one. The first attribute
that is at fault, of the first slot that has one, is what a template is refused for
(`slots_collected`).
-/
namespace TypedSvelte

section

variable {α β : Type}

private theorem lookup_map (name : α → String) (value : α → β) (xs : List α) (sought : String) :
    (xs.map fun x => (name x, value x)).lookup sought =
      (xs.find? fun x => sought == name x).map value := by
  induction xs with
  | nil => rfl
  | cons x rest ih =>
    rw [List.map_cons, List.lookup_cons, List.find?_cons, ih]
    cases sought == name x <;> rfl

end

namespace Component

open Markup

def isExpressionPart : ValuePart → Bool
  | .text _ => false
  | .expression _ => true

/-- What is refused of an attribute of a slot: a name with an expression in it, and a spread. -/
def slotFault? : Attribute → Option TransformError
  | .plain a =>
    if a.name = "name" ∧ a.value.any isExpressionPart = true then
      some (.structural .dynamicSlotName a.span.start)
    else none
  | .spread e => some (.structural .slotSpread e.span.start)
  | .shorthand _ | .directive _ => none

def slotName? : Attribute → Option String
  | .plain a => if a.name = "name" then a.staticValue? else none
  | .shorthand _ | .spread _ | .directive _ => none

/-- The property that an attribute of a slot exposes. -/
def exposed? : Attribute → Option (String × String)
  | .plain a => if a.name = "name" then none else some (a.name, attributeValue a)
  | .shorthand e => some (e.text, e.text)
  | .spread _ | .directive _ => none

/-- The name that attributes give a slot: the last one. -/
def slotName (attributes : List Attribute) : String :=
  (attributes.filterMap slotName?).getLast?.getD defaultSlot

/-- The properties that attributes of a slot expose. -/
def slotProps (attributes : List Attribute) : SlotProps :=
  Entries.putAll (attributes.filterMap exposed?)

theorem staticValue?_eq_none_iff (a : PlainAttribute) :
    a.staticValue? = none ↔ a.value.any isExpressionPart = true := by
  obtain ⟨span, name, value⟩ := a
  induction value with
  | nil => exact iff_of_false nofun nofun
  | cons part rest ih =>
    cases part with
    | text t => rw [staticValue?_text, Option.map_eq_none_iff, ih, List.any_cons, isExpressionPart,
        Bool.false_or]
    | expression e => exact iff_of_true rfl rfl

/-- The slot with an attribute that is not at fault. -/
def Slot.taking (slot : Slot) (a : Attribute) : Slot where
  name := (slotName? a).getD slot.name
  props := (exposed? a).elim slot.props fun property => slot.props.put property.1 property.2

private theorem Slot.add_eq (slot : Slot) (a : Attribute) :
    slot.add a = faultOr (slotFault? a) (slot.taking a) := by
  cases a with
  | plain a =>
    have static := staticValue?_eq_none_iff a
    by_cases named : a.name = "name"
    · cases value : a.staticValue? with
      | none => simp [Slot.add, faultOr, slotFault?, named, value, static.1 value]
      | some text =>
        have isText : a.value.any isExpressionPart = false := by
          rw [Bool.eq_false_iff]
          intro isExpression
          rw [static.2 isExpression] at value
          cases value
        simp [Slot.add, faultOr, slotFault?, Slot.taking, slotName?, exposed?, named, value, isText]
    · simp [Slot.add, faultOr, slotFault?, Slot.taking, slotName?, exposed?, named]
  | shorthand e | spread e | directive d => rfl

private theorem foldl_taking (attributes : List Attribute) :
    attributes.foldl Slot.taking ⟨defaultSlot, []⟩ = ⟨slotName attributes, slotProps attributes⟩ := by
  induction attributes using List.reverseRecOn with
  | nil => rfl
  | append_singleton attributes a ih =>
    rw [List.foldl_append, ih, List.foldl_cons, List.foldl_nil, Slot.taking, slotName, slotName,
      slotProps, slotProps, List.filterMap_append, List.filterMap_append]
    congr 1
    · cases name : slotName? a <;> simp [name]
    · cases exposes : exposed? a with
      | none => simp [exposes]
      | some property => simp [exposes, Entries.putAll_snoc]

/-- An element is read as the slot that its attributes describe, unless one of them is at fault. -/
theorem Slot.ofElement_eq (head : ElementHead) :
    Slot.ofElement head = faultOr (head.attributes.findSome? slotFault?)
      ⟨slotName head.attributes, slotProps head.attributes⟩ := by
  rw [Slot.ofElement, foldlM_eq_of_faults Slot.add_eq, foldl_taking]

def describedSlot (head : ElementHead) : String × SlotProps :=
  (slotName head.attributes, slotProps head.attributes)

def headFault? (head : ElementHead) : Option TransformError :=
  head.attributes.findSome? slotFault?

def slotAt? (nodes : List Node) (way : List Nat) : Option ElementHead :=
  (headAt? nodes way).filter (·.kind == .slot)

private theorem exists_listing_slots (nodes : List Node) :
    ∃ found, Listing (slotAt? nodes) found ∧ found.map (·.2) = slotElements nodes := by
  obtain ⟨found, listed, elements⟩ := exists_listing nodes
  refine ⟨found.filter (·.2.kind == .slot), ⟨listed.ordered.filter _, fun way head => ?_⟩, ?_⟩
  · rw [List.mem_filter, listed.complete, slotAt?, Option.filter_eq_some_iff]
  · rw [slotElements, ← elements, List.filter_map]
    rfl

private theorem slotsOf_eq (nodes : List Node) :
    slotsOf nodes = faultOr ((slotElements nodes).findSome? headFault?)
      (Entries.putAll ((slotElements nodes).map describedSlot)) := by
  rw [slotsOf, Entries.putAll, List.foldl_map]
  refine foldlM_eq_of_faults (fun slots head => ?_) _ _
  rw [Slot.ofElement_eq, headFault?]
  cases head.attributes.findSome? slotFault? <;> rfl

/-- The slots of a template are collected from all slot elements, wherever they stand, in the order
of the document. The template is refused for the first fault of the first slot that has one; else the
slots are named in the order of first mention, and each has the properties of the last element of
that name. -/
theorem slots_collected (nodes : List Node) : ∃ found, Listing (slotAt? nodes) found ∧
    match found.findSome? fun slot => slot.2.attributes.findSome? slotFault? with
    | some fault => slotsOf nodes = .error fault
    | none => ∃ slots, slotsOf nodes = .ok slots ∧
        slots = Entries.putAll (found.map fun slot => describedSlot slot.2) ∧
        slots.names = (found.map fun slot => slotName slot.2.attributes).eraseDups ∧
        ∀ name, slots.get? name =
          (found.reverse.find? fun slot => name == slotName slot.2.attributes).map
            fun slot => slotProps slot.2.attributes := by
  obtain ⟨found, listed, elements⟩ := exists_listing_slots nodes
  refine ⟨found, listed, ?_⟩
  have collected := slotsOf_eq nodes
  rw [← elements, List.findSome?_map, List.map_map] at collected
  split
  · rename_i fault first
    rw [collected]
    exact congrArg (faultOr · _) first
  · rename_i faultless
    refine ⟨_, collected.trans (congrArg (faultOr · _) faultless), rfl, ?_, fun name => ?_⟩
    · rw [Entries.names_putAll, List.map_map]
      rfl
    · rw [Entries.get?_putAll, ← List.map_reverse]
      exact lookup_map _ _ _ name

end Component

end TypedSvelte
