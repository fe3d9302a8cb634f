import TypedSvelte.Position.Span
import TypedSvelte.Text.Blank

/-!
# Component documents

The tree of a component: at most one script of each context, styles, and the template as a list of
nodes. Every part keeps the byte span it was read from.
-/
namespace TypedSvelte.Markup

/-- An expression embedded in markup, without the white space around it. -/
structure Expression where
  span : Span
  text : String
  deriving DecidableEq, Repr, Inhabited

namespace Expression

/-- The expression written by `raw`, which begins at byte `offset`. -/
def ofText (offset : Nat) (raw : List Char) : Expression :=
  let start := offset + byteSize (raw.takeWhile isBlank)
  let text := trim raw
  ⟨⟨start, start + byteSize text⟩, String.ofList text⟩

def isEmpty (e : Expression) : Bool := e.text.isEmpty

def chars (e : Expression) : List Char := e.text.toList

/-- The part of the expression between two byte offsets of its text, unless it is blank. -/
def slice? (e : Expression) (start stop : Nat) : Option Expression :=
  let part := ofText (e.span.start + start) ((Span.mk start stop).text e.text).toList
  if part.isEmpty then none else some part

/-- The part of the expression after byte `start` of its text, unless it is blank. -/
def after? (e : Expression) (start : Nat) : Option Expression :=
  e.slice? start e.text.utf8ByteSize

end Expression

/-- A stretch of the source that is taken as it is. -/
structure RawText where
  span : Span
  data : String
  deriving DecidableEq, Repr, Inhabited

inductive ValuePart where
  | text (text : RawText)
  | expression (expression : Expression)
  deriving DecidableEq, Repr, Inhabited

/-- An attribute `name`, `name="text"` or `name={value}`. Without an equals sign its value is empty.
-/
structure PlainAttribute where
  span : Span
  name : String
  value : List ValuePart
  deriving DecidableEq, Repr, Inhabited

/-- The text of the value when no expression occurs in it. -/
def PlainAttribute.staticValue? (a : PlainAttribute) : Option String :=
  let texts := a.value.mapM fun (part : ValuePart) =>
    match part with
    | .text text => some text.data
    | .expression _ => none
  texts.map String.join

/-- The families of directives, by the word before the colon. -/
inductive DirectiveKind where
  | on | bind | classToggle | style | action | transition | intro | outro | animate | slotProp
  deriving DecidableEq, Repr, Inhabited

def DirectiveKind.ofWord? : String → Option DirectiveKind
  | "on" => some .on
  | "bind" => some .bind
  | "class" => some .classToggle
  | "style" => some .style
  | "use" => some .action
  | "transition" => some .transition
  | "in" => some .intro
  | "out" => some .outro
  | "animate" => some .animate
  | "let" => some .slotProp
  | _ => none

/-- An attribute `kind:name|modifiers={value}`. Only a value of exactly one expression is kept. -/
structure Directive where
  span : Span
  kind : DirectiveKind
  name : String
  modifiers : List String
  value : Option Expression
  deriving DecidableEq, Repr, Inhabited

/-- An attribute of an element or a script. -/
inductive Attribute where
  | plain (plain : PlainAttribute)
  /-- `{name}` -/
  | shorthand (expression : Expression)
  /-- `{...props}` -/
  | spread (expression : Expression)
  | directive (directive : Directive)
  deriving DecidableEq, Repr, Inhabited

/-- How the name of an element is understood. -/
inductive ElementKind where
  | html | component | slot | special
  deriving DecidableEq, Repr, Inhabited

/-- The kind of an element by its name: capitalised and dotted names are components. -/
def ElementKind.ofName (name : String) : ElementKind :=
  if name == "slot" then .slot
  else if name.startsWith "svelte:" then .special
  else if name.toList.contains '.' || name.toList.head?.any Char.isUpper then .component
  else .html

structure ElementHead where
  span : Span
  name : String
  kind : ElementKind
  attributes : List Attribute
  selfClosing : Bool
  deriving DecidableEq, Repr, Inhabited

/-- The tags `{@html}`, `{@debug}` and `{@const}`. -/
inductive TagKind where
  | html | debug | const
  deriving DecidableEq, Repr, Inhabited

/-- The header `{#each expression as context, index (key)}` of a block. -/
structure EachHead where
  span : Span
  expression : Expression
  context : Option Expression
  index : Option Expression
  key : Option Expression
  deriving DecidableEq, Repr, Inhabited

/-- The subject of an `{#await}` block and the bindings of its branches. -/
structure AwaitHead where
  span : Span
  expression : Expression
  thenBinding : Option Expression
  catchBinding : Option Expression
  deriving DecidableEq, Repr, Inhabited

mutual

inductive Node where
  | element (head : ElementHead) (children : List Node)
  | text (text : RawText)
  | comment (comment : RawText)
  /-- `{expression}` -/
  | mustache (span : Span) (expression : Expression)
  | tag (span : Span) (kind : TagKind) (expression : Option Expression)
  | ifBlock (span : Span) (condition : Expression) (consequent : List Node) (alternate : Alternate)
  | each (head : EachHead) (body : List Node) (fallback : Option (List Node))
  | await (head : AwaitHead) (pending : List Node) (onThen onCatch : Option (List Node))
  | key (span : Span) (expression : Expression) (body : List Node)

/-- What follows the consequent of a condition. -/
inductive Alternate where
  | absent
  | otherwise (nodes : List Node)
  | elseIf (span : Span) (condition : Expression) (consequent : List Node) (alternate : Alternate)

end

instance : Inhabited Node := ⟨.text default⟩

inductive ScriptLang where
  | javaScript | typeScript
  deriving DecidableEq, Repr, Inhabited

/-- A script runs once for the module or once for each instance. -/
inductive ScriptContext where
  | perInstance | perModule
  deriving DecidableEq, Repr, Inhabited

/-- A top-level script: `openTag`, `contentSpan` and `closeTag` make up `span`. -/
structure Script where
  span : Span
  openTag : Span
  closeTag : Span
  contentSpan : Span
  lang : ScriptLang
  context : ScriptContext
  attributes : List Attribute
  deriving DecidableEq, Repr, Inhabited

/-- A top-level style, of which only the extent matters. -/
structure Style where
  span : Span
  contentSpan : Span
  deriving DecidableEq, Repr, Inhabited

structure Document where
  span : Span
  moduleScript : Option Script
  instanceScript : Option Script
  styles : List Style
  fragment : List Node
  deriving Inhabited

def plainAttributes (attributes : List Attribute) : List PlainAttribute :=
  attributes.filterMap fun
    | .plain plain => some plain
    | _ => none

def ScriptLang.ofAttributes (attributes : List Attribute) : ScriptLang :=
  let asksForTypes (a : PlainAttribute) : Bool :=
    let value := a.staticValue?.getD ""
    (a.name == "lang" && (value == "ts" || value == "typescript"))
      || (a.name == "type" && (findText? "typescript".toList value.toList).isSome)
  if (plainAttributes attributes).any asksForTypes then .typeScript else .javaScript

def ScriptContext.ofAttributes (attributes : List Attribute) : ScriptContext :=
  let asksForModule (a : PlainAttribute) : Bool :=
    (a.name == "context" && a.staticValue? == some "module")
      || (a.name == "module" && a.value.isEmpty)
  if (plainAttributes attributes).any asksForModule then .perModule else .perInstance

end TypedSvelte.Markup
