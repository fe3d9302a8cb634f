import TypedSvelte.Position.Span

/-!
# Outlines of scripts

Of a script only this is kept: its top-level items with their places, what they declare, import and
export, the shapes of functions, and as much of values as tells what an exported name is bound to
and what a configuration object holds. All offsets are bytes of the script's text.
-/
namespace TypedSvelte.Script

/-- What declares names. The place of a name covers the name alone; `typeStop` is where the type
annotation of a pattern ends. -/
inductive Pattern where
  | name (place : Span) (text : String) (typeStop : Option Nat)
  /-- The elements present. -/
  | array (place : Span) (typeStop : Option Nat) (elements : List Pattern)
  /-- The patterns of the properties. -/
  | object (place : Span) (typeStop : Option Nat) (properties : List Pattern)
  | rest (place : Span) (typeStop : Option Nat) (target : Pattern)
  | withDefault (place : Span) (target : Pattern)
  /-- Something that is assigned to and declares nothing. -/
  | other (place : Span)
  deriving Repr, Inhabited

namespace Pattern

def span : Pattern → Span
  | name place _ typeStop | array place typeStop _ | object place typeStop _
  | rest place typeStop _ => ⟨place.start, typeStop.getD place.stop⟩
  | withDefault place _ | other place => place

def isTyped : Pattern → Bool
  | name _ _ typeStop | array _ typeStop _ | object _ typeStop _ => typeStop.isSome
  | rest _ typeStop target => typeStop.isSome || target.isTyped
  | withDefault _ target => target.isTyped
  | other _ => false

mutual

def places : Pattern → List (Span × String)
  | .name place text _ => [(place, text)]
  | .array _ _ elements => placesOf elements
  | .object _ _ properties => placesOf properties
  | .rest _ _ target => target.places
  | .withDefault _ target => target.places
  | .other _ => []

def placesOf : List Pattern → List (Span × String)
  | [] => []
  | p :: ps => p.places ++ placesOf ps

end

def names (p : Pattern) : List String := p.places.map (·.2)

mutual

/-- The same pattern in another place: `f` tells where an offset is to be found. -/
def move (f : Nat → Nat) : Pattern → Pattern
  | .name place text typeStop => .name (place.move f) text (typeStop.map f)
  | .array place typeStop elements => .array (place.move f) (typeStop.map f) (moveAll f elements)
  | .object place typeStop properties =>
    .object (place.move f) (typeStop.map f) (moveAll f properties)
  | .rest place typeStop target => .rest (place.move f) (typeStop.map f) (target.move f)
  | .withDefault place target => .withDefault (place.move f) (target.move f)
  | .other place => .other (place.move f)

def moveAll (f : Nat → Nat) : List Pattern → List Pattern
  | [] => []
  | p :: ps => p.move f :: moveAll f ps

end

def isName : Pattern → Bool
  | name _ _ _ => true
  | _ => false

def isRest : Pattern → Bool
  | rest _ _ _ => true
  | _ => false

end Pattern

structure FunctionShape where
  /-- The offset of its first token. -/
  start : Nat
  params : List Pattern
  hasReturnType : Bool
  isAsync : Bool
  isGenerator : Bool
  /-- Where its body begins, or where it ends if it has none. -/
  bodyStart : Nat
  deriving Repr, Inhabited

def FunctionShape.move (f : Nat → Nat) (shape : FunctionShape) : FunctionShape :=
  { shape with
    start := f shape.start, params := shape.params.map (·.move f)
    bodyStart := f shape.bodyStart }

inductive Value where
  | name (text : String)
  /-- A string, or a template without substitutions as it is spelled. -/
  | text (value : String)
  /-- The properties that have a name or string as key and a value of their own. -/
  | object (properties : List (String × Value))
  | function (shape : FunctionShape)
  | arrow (shape : FunctionShape)
  | group (inner : Value)
  | satisfying (inner : Value)
  | asserted (inner : Value)
  | assertedConst
  /-- A plain assignment; what is assigned to. -/
  | assignment (target : Value)
  | other
  deriving Repr, Inhabited

def Value.ungrouped : Value → Value
  | .group inner => inner.ungrouped
  | value => value

def Value.bare : Value → Value
  | .group inner => inner.bare
  | .satisfying inner => inner.bare
  | .asserted inner => inner.bare
  | value => value

mutual

def Value.move (f : Nat → Nat) : Value → Value
  | .object properties => .object (Value.moveAll f properties)
  | .function shape => .function (shape.move f)
  | .arrow shape => .arrow (shape.move f)
  | .group inner => .group (inner.move f)
  | .satisfying inner => .satisfying (inner.move f)
  | .asserted inner => .asserted (inner.move f)
  | .assignment target => .assignment (target.move f)
  | .name spelling => .name spelling
  | .text content => .text content
  | .assertedConst => .assertedConst
  | .other => .other

def Value.moveAll (f : Nat → Nat) : List (String × Value) → List (String × Value)
  | [] => []
  | (key, value) :: others => (key, value.move f) :: Value.moveAll f others

end

/-- One declarator of a variable declaration. -/
structure Declarator where
  target : Pattern
  initial : Option Value
  deriving Repr, Inhabited

def Declarator.move (f : Nat → Nat) (d : Declarator) : Declarator :=
  ⟨d.target.move f, d.initial.map (·.move f)⟩

/-- The place of the name that a declarator declares, if it is no pattern. -/
def Declarator.place? (d : Declarator) : Option Span :=
  match d.target with
  | .name place _ _ => some place
  | _ => none

inductive Declaration where
  | function (name : String) (shape : FunctionShape)
  | classNamed (name : String)
  | enum (name : String)
  | bindings (declarators : List Declarator)
  /-- Variables that are to be disposed of. -/
  | disposable (declarators : List Declarator)
  /-- Declarations of names that are no variables: types, interfaces, namespaces. -/
  | typeOnly
  deriving Repr, Inhabited

def Declaration.move (f : Nat → Nat) : Declaration → Declaration
  | .function name shape => .function name (shape.move f)
  | .bindings declarators => .bindings (declarators.map (·.move f))
  | .disposable declarators => .disposable (declarators.map (·.move f))
  | .classNamed name => .classNamed name
  | .enum name => .enum name
  | .typeOnly => .typeOnly

/-- A statement, by what its kind matters for. -/
inductive Statement where
  | declaration (declared : Declaration)
  | labelled (label : String) (body : Statement)
  | expression (value : Value)
  | other
  deriving Repr, Inhabited

def Statement.move (f : Nat → Nat) : Statement → Statement
  | .declaration declared => .declaration (declared.move f)
  | .labelled label body => .labelled label (body.move f)
  | .expression value => .expression (value.move f)
  | .other => .other

inductive ExportName where
  | ident (name : String)
  /-- A string; its bytes with the quotes. -/
  | string (place : Span)
  deriving Repr, Inhabited

def ExportName.move (f : Nat → Nat) : ExportName → ExportName
  | .ident name => .ident name
  | .string place => .string (place.move f)

inductive ExportSpecifier where
  | named (source : ExportName) (exported : Option ExportName) (isTypeOnly : Bool)
  /-- All exports of another module as one object. -/
  | everything
  deriving Repr, Inhabited

def ExportSpecifier.move (f : Nat → Nat) : ExportSpecifier → ExportSpecifier
  | .named source exported isTypeOnly =>
    .named (source.move f) (exported.map (·.move f)) isTypeOnly
  | .everything => .everything

inductive ItemKind where
  /-- The local names of an import. -/
  | imports (locals : List String)
  | statement (content : Statement)
  /-- An exported declaration; the offset at which the declaration begins. -/
  | exportDeclaration (start : Nat) (declared : Declaration)
  | exportClause (isTypeOnly fromModule : Bool) (specifiers : List ExportSpecifier)
  | exportAll
  /-- A default export; the name that it declares, and its value, unless it is a declaration. -/
  | exportDefault (name : Option String) (value : Option Value)
  | other
  deriving Repr, Inhabited

def ItemKind.move (f : Nat → Nat) : ItemKind → ItemKind
  | .imports locals => .imports locals
  | .statement content => .statement (content.move f)
  | .exportDeclaration start declared =>
    .exportDeclaration (f start) (declared.move f)
  | .exportClause isTypeOnly fromModule specifiers =>
    .exportClause isTypeOnly fromModule (specifiers.map (·.move f))
  | .exportAll => .exportAll
  | .exportDefault name value => .exportDefault name (value.map (·.move f))
  | .other => .other

structure Item where
  span : Span
  kind : ItemKind
  deriving Repr, Inhabited

def Item.move (f : Nat → Nat) (item : Item) : Item := ⟨item.span.move f, item.kind.move f⟩

/-- The same item counted from `offset` bytes further left. -/
def Item.shift (offset : Nat) (item : Item) : Item := item.move (· + offset)

/-- An identifier, which declares something or refers to it, and its place. -/
structure Identifier where
  place : Span
  name : String
  deriving DecidableEq, Repr, Inhabited

def Identifier.shift (offset : Nat) (i : Identifier) : Identifier := ⟨i.place.shift offset, i.name⟩

/-- A script: its items and its identifiers, in order. The names of members are no identifiers. -/
structure Outline where
  items : List Item
  identifiers : List Identifier
  deriving Repr, Inhabited

end TypedSvelte.Script
