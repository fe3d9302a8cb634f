import TypedSvelte.Markup.Traversal
import TypedSvelte.Markup.Token
import TypedSvelte.Position.Piece

/-!
# Templates as code

Every expression of a template is copied into a statement, so that it is checked in the scope that
the template gives it. Blocks become the statements that they stand for. Text and comments have no
types and are left out.
-/
namespace TypedSvelte.Component

open Markup

def statementOf (span : Span) : List Piece := [.fresh "(", .copied span, .fresh ");\n"]

/-- Where the name of a directive stands in the source: after the first colon. -/
def directiveName (source : String) (d : Directive) : Span :=
  let spelling := (d.span.text source).toList
  let start :=
    match findText? [':'] spelling with
    | some n => d.span.start + byteSize (spelling.take n) + 1
    | none => d.span.start
  ⟨start, start + d.name.utf8ByteSize⟩

/-- A statement of the name of a directive, unless that is empty. -/
def nameStatement (source : String) (d : Directive) : List Piece :=
  if d.name.isEmpty then [] else statementOf (directiveName source d)

/-- A statement of the value of a directive, if it has one. -/
def valueStatement (d : Directive) : List Piece :=
  match d.value with
  | some value => statementOf value.span
  | none => []

/-- The statements of a directive. Without a value, some directives refer to the variable of their
name; others name a function in any case. -/
def directivePieces (source : String) (d : Directive) : List Piece :=
  match d.kind with
  | .slotProp => []
  | .on => valueStatement d
  | .bind | .classToggle | .style =>
    if d.value.isSome then valueStatement d else nameStatement source d
  | .action | .transition | .intro | .outro | .animate =>
    nameStatement source d ++ valueStatement d

def attributePieces (source : String) : Attribute → List Piece
  | .plain a => a.value.flatMap fun
    | .expression e => statementOf e.span
    | .text _ => []
  | .shorthand e => statementOf e.span
  | .spread e => [.fresh "(\x7b...", .copied e.span, .fresh "\x7d);\n"]
  | .directive d => directivePieces source d

/-- The directives that take properties of a slot for the children of an element. -/
def slotBindings (attributes : List Attribute) : List Directive :=
  attributes.filterMap fun
    | .directive d => if d.kind == .slotProp then some d else none
    | _ => none

def slotBindingPieces (source : String) (d : Directive) : List Piece :=
  let binding := (d.value.map (·.span)).getD (directiveName source d)
  [.fresh "let ", .copied binding, .fresh " = __sveltets_any;\n"]

/-- The statements of an element. Properties that a slot hands to its children are declared around
these. -/
def elementPieces (source : String) (head : ElementHead) (children : List Piece) : List Piece :=
  head.attributes.flatMap (attributePieces source) ++
    match slotBindings head.attributes with
    | [] => children
    | bindings =>
      [.fresh "\x7b\n"] ++ bindings.flatMap (slotBindingPieces source) ++ children
        ++ [.fresh "\x7d\n"]

def tagPieces (kind : TagKind) : Option Expression → List Piece
  | none => []
  | some e =>
    match kind with
    | .html | .debug => statementOf e.span
    | .const => [.fresh "const ", .copied e.span, .fresh ";\n"]

def conditionPieces (condition : Expression) : List Piece :=
  [.fresh "if (", .copied condition.span, .fresh ") \x7b\n"]

def eachPieces (head : EachHead) : List Piece :=
  [.fresh "for (const ",
    match head.context with
    | some context => .copied context.span
    | none => .fresh "__sveltets_item",
    .fresh " of __sveltets_each(", .copied head.expression.span, .fresh ")) \x7b\n"]
  ++ (match head.index with
    | some index => [.fresh "let ", .copied index.span, .fresh " = 0;\n"]
    | none => [])
  ++ (match head.key with
    | some key => statementOf key.span
    | none => [])

def thenPieces (head : AwaitHead) : List Piece :=
  match head.thenBinding with
  | some binding =>
    [.fresh "const ", .copied binding.span, .fresh " = __sveltets_awaited(",
      .copied head.expression.span, .fresh ");\n"]
  | none => []

def catchPieces (head : AwaitHead) : List Piece :=
  match head.catchBinding with
  | some binding => [.fresh "const ", .copied binding.span, .fresh " = __sveltets_any;\n"]
  | none => []

mutual

def nodePieces (source : String) : Node → List Piece
  | .element head children => elementPieces source head (nodesPieces source children)
  | .text _ | .comment _ => []
  | .mustache _ e => statementOf e.span
  | .tag _ kind e => tagPieces kind e
  | .ifBlock _ condition consequent alternate =>
    conditionPieces condition ++ nodesPieces source consequent ++ [.fresh "\x7d"]
      ++ alternatePieces source alternate ++ [.fresh "\n"]
  | .each head body fallback =>
    eachPieces head ++ nodesPieces source body ++ [.fresh "\x7d\n"]
      ++ branchPieces source [] fallback
  | .await head pending onThen onCatch =>
    statementOf head.expression.span ++ nodesPieces source pending
      ++ branchPieces source (thenPieces head) onThen
      ++ branchPieces source (catchPieces head) onCatch
  | .key _ e body => statementOf e.span ++ nodesPieces source body

def nodesPieces (source : String) : List Node → List Piece
  | [] => []
  | node :: rest => nodePieces source node ++ nodesPieces source rest

def branchPieces (source : String) (declared : List Piece) : Option (List Node) → List Piece
  | none => []
  | some nodes => [.fresh "\x7b\n"] ++ declared ++ nodesPieces source nodes ++ [.fresh "\x7d\n"]

def alternatePieces (source : String) : Alternate → List Piece
  | .absent => []
  | .otherwise nodes => [.fresh " else \x7b\n"] ++ nodesPieces source nodes ++ [.fresh "\x7d"]
  | .elseIf _ condition consequent alternate =>
    [.fresh " else "] ++ conditionPieces condition ++ nodesPieces source consequent
      ++ [.fresh "\x7d"]
      ++ alternatePieces source alternate

end

def templatePieces (source : String) (nodes : List Node) : List Piece :=
  [.fresh "(() => \x7b\n"] ++ nodesPieces source nodes ++ [.fresh "\x7d);\n"]

def templateMentions (name : String) (nodes : List Node) : Bool :=
  (expressionsOf nodes).any fun e => (identifiers e.chars).contains name

end TypedSvelte.Component
