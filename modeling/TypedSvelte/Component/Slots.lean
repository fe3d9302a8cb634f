import TypedSvelte.Markup.Traversal
import TypedSvelte.Text.Entries
import TypedSvelte.Text.Literal
import TypedSvelte.Transform.Error

/-!
# Slots

The slots that a component renders, with the properties that each exposes. A slot that is rendered
several times keeps its first place and its last properties.
-/
namespace TypedSvelte.Component

open Markup

abbrev SlotProps := Entries String

abbrev Slots := Entries SlotProps

/-- The name of a slot that is given none. -/
def defaultSlot : String := "default"

def templatePart : ValuePart → List Char
  | .text t => templateText t.data.toList
  | .expression e => ['$', '{'] ++ e.text.toList ++ ['}']

def templateLiteral (parts : List ValuePart) : String :=
  String.ofList ('`' :: parts.flatMap templatePart ++ ['`'])

def attributeValue (a : PlainAttribute) : String :=
  match a.value with
  | [] => "true"
  | [.expression e] => e.text
  | parts =>
    match a.staticValue? with
    | some text => quoted text
    | none => templateLiteral parts

/-- The name and the properties of a slot. -/
structure Slot where
  name : String
  props : SlotProps
  deriving Repr, Inhabited

def Slot.add (slot : Slot) : Attribute → Except TransformError Slot
  | .plain a =>
    if a.name == "name" then
      match a.staticValue? with
      | some name => .ok { slot with name }
      | none => .error (.structural .dynamicSlotName a.span.start)
    else .ok { slot with props := slot.props.put a.name (attributeValue a) }
  | .shorthand e => .ok { slot with props := slot.props.put e.text e.text }
  | .spread e => .error (.structural .slotSpread e.span.start)
  | .directive _ => .ok slot

def Slot.ofElement (head : ElementHead) : Except TransformError Slot :=
  head.attributes.foldlM Slot.add ⟨defaultSlot, []⟩

def slotElements (nodes : List Node) : List ElementHead :=
  (elementsOf nodes).filter (·.kind == .slot)

def slotsOf (nodes : List Node) : Except TransformError Slots :=
  (slotElements nodes).foldlM
    (fun slots head => do
      let slot ← Slot.ofElement head
      return slots.put slot.name slot.props)
    []

def braced (texts : List String) : String := "\x7b" ++ ", ".intercalate texts ++ "\x7d"

def SlotProps.text (props : SlotProps) : String :=
  braced (props.map fun (name, value) => objectKey name ++ ":" ++ value)

def Slots.text (slots : Slots) : String :=
  braced (slots.map fun (name, props) => objectKey name ++ ": " ++ SlotProps.text props)

end TypedSvelte.Component
