import TypedSvelte.Component.Slots
import TypedSvelte.Component.Template
import TypedSvelte.Markup.Parse

/-!
# Components as modules

A component becomes a module of this shape:

* the imports of its instance script,
* its module script,
* a function `render` around the rest of its instance script and its template, which returns its
  properties and slots,
* a default export that tells the types of these.

Scripts and expressions are copied, so that positions in the module lead back to the component.
-/
namespace TypedSvelte.Component

open Markup Script

def propsName : String := "$$props"

/-- A script of a component that has been read on its own. Offsets in its outline count from
`base`. -/
structure ScriptBlock where
  script : Markup.Script
  outline : Outline
  source : String
  deriving Repr, Inhabited

namespace ScriptBlock

/-- The offset at which the content of the script begins in the component. -/
def base (block : ScriptBlock) : Nat := block.script.contentSpan.start

def isTyped (script : Markup.Script) : Bool := script.lang == .typeScript

def ofScript (source : String) (script : Markup.Script) : Except TransformError ScriptBlock :=
  let content := script.contentSpan.text source
  match Script.parse (isTyped script) content with
  | .ok outline => .ok { script, outline, source := content }
  | .error e => .error (.script (script.contentSpan.start + e.offset))

def exports (block : ScriptBlock) (mode : ExportMode) : Except TransformError Exports :=
  ((Subject.mk block.outline block.source (isTyped block.script)).exports mode).mapError
    (TransformError.ofExport block.base)

def mentions (block : ScriptBlock) (name : String) : Bool :=
  block.outline.identifiers.any (·.name == name)

def place (block : ScriptBlock) (item : Item) : Span := item.span.shift block.base

end ScriptBlock

/-- The name that a reactive statement `$: name = value` assigns to. -/
def reactiveTarget? : Statement → Option String
  | .labelled "$" (.expression (.assignment (.name name))) => some name
  | _ => none

/-- The rest of the instance script from byte `cursor` up to `stop`, the items still to come being
given. Imports and export clauses are left out, and so is what comes before an exported
declaration. A name that only reactive statements assign to is declared before the first of
them. -/
def bodyPieces (block : ScriptBlock) (isDeclared : String → Bool) (stop : Nat) (cursor : Nat)
    (forward : List String) : List Item → List Piece
  | [] => [.copied ⟨cursor, stop⟩]
  | item :: rest =>
    let place := block.place item
    match item.kind with
    | .imports _ | .exportClause _ _ _ =>
      .copied ⟨cursor, place.start⟩ :: bodyPieces block isDeclared stop place.stop forward rest
    | .exportDeclaration start _ =>
      .copied ⟨cursor, place.start⟩
        :: bodyPieces block isDeclared stop (block.base + start) forward rest
    | .statement s =>
      match reactiveTarget? s with
      | some name =>
        if isDeclared name || forward.contains name then
          bodyPieces block isDeclared stop cursor forward rest
        else
          .copied ⟨cursor, place.start⟩ :: .fresh ("let " ++ name ++ ";\n")
            :: bodyPieces block isDeclared stop place.start (name :: forward) rest
      | none => bodyPieces block isDeclared stop cursor forward rest
    | _ => bodyPieces block isDeclared stop cursor forward rest

def instancePieces (block : ScriptBlock) (isDeclared : String → Bool) : List Piece :=
  let content := block.script.contentSpan
  bodyPieces block isDeclared content.stop content.start [] block.outline.items

def importPieces (block : ScriptBlock) : List Piece :=
  block.outline.items.flatMap fun item =>
    match item.kind with
    | .imports _ => [.copied (block.place item), .fresh "\n"]
    | _ => []

def modulePieces (block : ScriptBlock) : List Piece :=
  [.copied block.script.contentSpan, .replaced block.script.closeTag ";\n"]

structure Parts where
  fragment : List Node
  moduleBlock : Option ScriptBlock
  instanceBlock : Option ScriptBlock
  slots : Slots
  moduleExports : Option Exports
  instanceExports : Option Exports
  deriving Inhabited

def Parts.ofSource (source : String) : Except TransformError Parts := do
  let parsed := Markup.parse source
  if let e :: _ := parsed.errors then throw (.markup e)
  let document := parsed.document
  let moduleBlock ← document.moduleScript.mapM (ScriptBlock.ofScript source)
  let instanceBlock ← document.instanceScript.mapM (ScriptBlock.ofScript source)
  let slots ← slotsOf document.fragment
  let moduleExports ← moduleBlock.mapM (·.exports .standalone)
  let instanceExports ← instanceBlock.mapM (·.exports .component)
  return {
    fragment := document.fragment
    moduleBlock, instanceBlock, slots, moduleExports, instanceExports }

namespace Parts

def usesProps (parts : Parts) : Bool :=
  templateMentions propsName parts.fragment
    || (parts.moduleBlock.toList ++ parts.instanceBlock.toList).any (·.mentions propsName)

/-- The properties of the component: the exports of the instance script. -/
def props (parts : Parts) : Entries String :=
  match parts.instanceExports with
  | some exports => exports.entries.map fun (name, entry) => (name, entry.localName)
  | none => []

def isDeclared (parts : Parts) (name : String) : Bool :=
  (parts.instanceExports.toList ++ parts.moduleExports.toList).any (·.isDeclared name)

/-- The beginning of the function `render`. -/
def header (parts : Parts) : String :=
  "function render() \x7b"
    ++ if parts.usesProps then "\nlet $$props = __sveltets_allPropsType();" else ""

/-- What comes before the template: the beginning of `render`, and the instance script if there is
one. -/
def renderPieces (parts : Parts) : List Piece :=
  match parts.instanceBlock with
  | some block =>
    [.replaced block.script.openTag parts.header]
      ++ instancePieces block parts.isDeclared
      ++ [.replaced block.script.closeTag ";\n"]
  | none => [.fresh (parts.header ++ "\n")]

def propsText (parts : Parts) : String :=
  ", ".intercalate <| parts.props.map fun (name, localName) =>
    if name = localName then name else objectKey name ++ ": " ++ localName

def footer (parts : Parts) : String :=
  "\nreturn \x7b props: \x7b" ++ parts.propsText ++ "\x7d, slots: " ++ parts.slots.text
    ++ " \x7d\x7d\n\nexport default class \x7b\n    $$prop_def = "
    ++ (if parts.usesProps then "__sveltets_partial_with_any" else "__sveltets_partial")
    ++ "(render().props)\n    $$slot_def = render().slots\n\x7d\n"

def pieces (source : String) (parts : Parts) : List Piece :=
  (parts.instanceBlock.map importPieces).getD []
    ++ (parts.moduleBlock.map modulePieces).getD []
    ++ parts.renderPieces
    ++ templatePieces source parts.fragment
    ++ [.fresh parts.footer]

end Parts

/-- A component that has become a module. -/
structure Transpiled where
  code : String
  sourceMap : SourceMap
  /-- The local name of each property. -/
  props : Entries String
  slots : Slots
  usesProps : Bool
  deriving Repr, Inhabited

def transpile (source : String) : Except TransformError Transpiled := do
  let parts ← Parts.ofSource source
  let draft := Draft.ofPieces source (parts.pieces source)
  return {
    code := draft.code
    sourceMap := draft.sourceMap
    props := parts.props
    slots := parts.slots
    usesProps := parts.usesProps }

/-- The declarations of the helpers that the modules of components refer to. -/
def helperDeclarations : String :=
  "declare function __sveltets_allPropsType(): any;\n"
    ++ "declare function __sveltets_partial<T>(props: T): Partial<T>;\n"
    ++ "declare function __sveltets_partial_with_any<T>(props: T): "
    ++ "Partial<T> & Record<string, any>;\n"
    ++ "declare function __sveltets_each<T>(items: ArrayLike<T> | Iterable<T> | null | undefined): "
    ++ "T[];\n"
    ++ "declare function __sveltets_awaited<T>(promise: T): Awaited<T>;\n"
    ++ "declare const __sveltets_any: any;\n"

end TypedSvelte.Component
