import TypedSvelte.Script.DocComment
import TypedSvelte.Script.Outline
import TypedSvelte.Text.Entries

/-!
# The exports of a script

`exports` finds out what each name that a script exports is bound to, and which other names the
script declares at its top level. Only top-level items count.

The instance script of a component is read strictly: its exports are the properties of the
component, so exports that give no local name are refused there. In a standalone module they are
passed over.
-/
namespace TypedSvelte.Script

/-- How exports without a local name are taken. -/
inductive ExportMode where
  /-- They are refused. -/
  | component
  /-- They are passed over. -/
  | standalone
  deriving DecidableEq, Repr, Inhabited

/-- The reasons for which exports are refused. -/
inductive ExportFault where
  | reExport
  | unsupportedSpecifier
  | exportAll
  | exportDefault
  | stringWithoutModule
  deriving DecidableEq, Repr, Inhabited

def ExportFault.message : ExportFault → String
  | .reExport => "re-exports from another module are not supported"
  | .unsupportedSpecifier => "unsupported export specifier"
  | .exportAll => "`export *` is not supported"
  | .exportDefault => "default exports are not supported"
  | .stringWithoutModule => "string literal export names need a source module"

/-- An export that is refused, and where it stands in the script. -/
structure ExportError where
  fault : ExportFault
  offset : Nat
  deriving DecidableEq, Repr, Inhabited

structure FunctionExport where
  shape : FunctionShape
  isArrow : Bool
  /-- An arrow function whose only parameter has no parentheses. -/
  bareParam : Bool
  /-- The offset of the parenthesis that closes the parameters. -/
  paramsClose : Option Nat
  deriving Repr, Inhabited

inductive ExportShape where
  | function (f : FunctionExport)
  /-- Anything else; its declarator, if it is a variable with one of its own. -/
  | variable (declarator : Option Declarator)
  deriving Repr, Inhabited

structure ExportEntry where
  /-- The name within the script. -/
  localName : String
  shape : ExportShape
  hasExplicitType : Bool
  /-- The script declares the local name at its top level. -/
  isBound : Bool
  deriving Repr, Inhabited

/-- The exports of a script by exported name, and the names that it declares without exporting the
declaration or imports. -/
structure Exports where
  entries : Entries ExportEntry
  declared : List String
  deriving Repr, Inhabited

def Exports.isDeclared (exports : Exports) (name : String) : Bool :=
  exports.declared.contains name
    || exports.entries.any fun (_, entry) => entry.isBound && entry.localName == name

/-- What a top-level declaration binds a name to. -/
inductive Bound where
  | function (shape : FunctionShape)
  | variable (declarator : Declarator)
  | pattern (isTyped : Bool)
  | other
  deriving Repr, Inhabited

def Declarator.bound (d : Declarator) : List (String × Bound) :=
  match d.target with
  | .name _ text _ => [(text, .variable d)]
  | target => target.names.map fun name => (name, .pattern target.isTyped)

/-- The names that a declaration declares, variables, functions, classes and enumerations alone. -/
def Declaration.bound : Declaration → List (String × Bound)
  | .function name shape => [(name, .function shape)]
  | .classNamed name | .enum name => [(name, .other)]
  | .bindings declarators => declarators.flatMap Declarator.bound
  | .disposable _ | .typeOnly => []

def Item.declaration? (item : Item) : Option Declaration :=
  match item.kind with
  | .statement (.declaration d) | .exportDeclaration _ d => some d
  | _ => none

/-- The first closing parenthesis between the last parameter and the body of a function. -/
def paramsClose? (source : String) (shape : FunctionShape) : Option Nat := do
  let start := (shape.params.getLast?.map (·.span.stop)).getD shape.start
  let between ← slice? source start shape.bodyStart
  let before ← findText? [')'] between.toList
  some (start + byteSize (between.toList.take before))

/-- The only parameter of an arrow function has no parentheses. -/
def hasBareParam (source : String) (shape : FunctionShape) : Bool :=
  match shape.params with
  | [param] =>
    match slice? source shape.start param.span.start with
    | some before => !before.toList.contains '('
    | none => false
  | _ => false

def FunctionExport.ofShape (source : String) (shape : FunctionShape) (isArrow : Bool) :
    FunctionExport :=
  let bareParam := isArrow && hasBareParam source shape
  { shape, isArrow, bareParam
    paramsClose := if bareParam then none else paramsClose? source shape }

def FunctionShape.isTyped (shape : FunctionShape) : Bool :=
  shape.hasReturnType || (shape.params.head?.map Pattern.isTyped).getD false

def Bound.shape (source : String) : Bound → ExportShape × Bool
  | .function shape => (.function (.ofShape source shape false), shape.isTyped)
  | .pattern isTyped => (.variable none, isTyped)
  | .other => (.variable none, false)
  | .variable d =>
    match d.initial.map Value.ungrouped with
    | some (.arrow shape) =>
      (.function (.ofShape source shape true), d.target.isTyped || shape.isTyped)
    | some (.function shape) =>
      (.function (.ofShape source shape false), d.target.isTyped || shape.isTyped)
    | some (.satisfying _) | some (.asserted _) | some .assertedConst =>
      (.variable (some d), true)
    | _ => (.variable (some d), d.target.isTyped)

/-- A script to be searched: its outline, the text that this was read from, and whether type syntax
was allowed. -/
structure Subject where
  outline : Outline
  source : String
  typed : Bool
  deriving Repr, Inhabited

namespace Subject

/-- The export of a name that an item at byte `start` declares. -/
def boundEntry (s : Subject) (localName : String) (bound : Bound) (start : Nat) : ExportEntry :=
  let (shape, isTyped) := bound.shape s.source
  { localName, shape
    hasExplicitType := isTyped || (!s.typed && hasDocType s.source start)
    isBound := true }

/-- The export of a name that is not declared. -/
def freeEntry (localName : String) : ExportEntry :=
  { localName, shape := .variable none, hasExplicitType := false, isBound := false }

def bindings (s : Subject) : List (String × Bound × Nat) :=
  s.outline.items.flatMap fun item =>
    match item.declaration? with
    | some d => d.bound.map fun (name, bound) => (name, bound, item.span.start)
    | none => []

/-- The export of a local name: of its first declaration, if it has one. -/
def entry (s : Subject) (localName : String) : ExportEntry :=
  match s.bindings.lookup localName with
  | some (bound, start) => s.boundEntry localName bound start
  | none => freeEntry localName

/-- The exported name, where it differs from the local one. A string stands for its spelling. -/
def exportedName (s : Subject) (localName : String) : Option ExportName → String
  | none => localName
  | some (.ident name) => name
  | some (.string place) => (slice? s.source (place.start + 1) (place.stop - 1)).getD ""

def refuse (mode : ExportMode) (fault : ExportFault) (offset : Nat) (exports : Exports) :
    Except ExportError Exports :=
  match mode with
  | .component => .error ⟨fault, offset⟩
  | .standalone => .ok exports

/-- Adds a part of an export clause at byte `start` that names no module. -/
def addSpecifier (s : Subject) (mode : ExportMode) (start : Nat) (exports : Exports) :
    ExportSpecifier → Except ExportError Exports
  | .everything => refuse mode .unsupportedSpecifier start exports
  | .named _ _ true => .ok exports
  | .named (.string place) _ false => .error ⟨.stringWithoutModule, place.start⟩
  | .named (.ident localName) exported false =>
    .ok { exports with
      entries := exports.entries.put (s.exportedName localName exported) (s.entry localName) }

def addItem (s : Subject) (mode : ExportMode) (exports : Exports) (item : Item) :
    Except ExportError Exports :=
  let start := item.span.start
  match item.kind with
  | .imports locals => .ok { exports with declared := exports.declared ++ locals }
  | .statement (.declaration d) =>
    .ok { exports with declared := exports.declared ++ d.bound.map (·.1) }
  | .exportDeclaration _ d =>
    .ok { exports with
      entries := d.bound.foldl
        (fun entries (name, bound) => entries.put name (s.boundEntry name bound start))
        exports.entries }
  | .exportClause true _ _ => .ok exports
  | .exportClause false true _ => refuse mode .reExport start exports
  | .exportClause false false specifiers =>
    specifiers.foldlM (s.addSpecifier mode start) exports
  | .exportAll => refuse mode .exportAll start exports
  | .exportDefault _ _ => refuse mode .exportDefault start exports
  | .statement _ | .other => .ok exports

def exports (s : Subject) (mode : ExportMode) : Except ExportError Exports :=
  s.outline.items.foldlM (s.addItem mode) ⟨[], []⟩

end Subject

end TypedSvelte.Script
