import TypedSvelte.Script.Grammar.TypeSyntax

/-!
# Functions and classes
-/
namespace TypedSvelte.Script.Grammar

variable (g : Grammar)

/-- How many parameters a function has; where it is noted if it has not. -/
inductive ParameterRule where
  | free
  | getter (offset : Nat)
  | setter (offset : Nat)
  deriving DecidableEq, Repr, Inhabited

/-- Notes what the rule has against the parameters. The receiver does not count. -/
def ParameterRule.check (rule : ParameterRule) (params : List Pattern) : Reader Unit := do
  let count := (params.filter fun p => p.names != ["this"]).length
  match rule with
  | .free => return
  | .getter offset => noteIf (count != 0) offset
  | .setter offset =>
    noteIf (count != 1) offset
    match params with
    | first :: _ => noteIf first.isRest first.span.start
    | [] => return

/-- The marks of a function that come before its parameters. -/
structure FunctionMarks where
  isAsync : Bool
  isGenerator : Bool
  rule : ParameterRule
  deriving DecidableEq, Repr, Inhabited

def FunctionMarks.none : FunctionMarks := ⟨false, false, .free⟩

def FunctionMarks.parameterContext (marks : FunctionMarks) (outer : Context) : Context :=
  { outer with
    inFunction := false, inParameters := true, hasNewTarget := true
    inAsync := marks.isAsync, inGenerator := marks.isGenerator }

def FunctionMarks.bodyContext (marks : FunctionMarks) (outer : Context) : Context :=
  { outer with
    inFunction := true, hasNewTarget := true
    inAsync := marks.isAsync, inGenerator := marks.isGenerator
    noIn := false, colonAhead := false, inLoop := false, canBreak := false, labels := [] }

/-- The directives with which a list of statements begins. -/
structure Prologue where
  /-- All statements so far are directives. -/
  isOpen : Bool
  /-- The offset of the first directive `use strict`. -/
  strict : Option Nat
  deriving DecidableEq, Repr, Inhabited

/-- The prologue with a statement that begins with the token `first`. A directive is a string, and
`use strict` is spelled without escapes. -/
def Prologue.add (prologue : Prologue) (first : Token) (statement : Statement) : Prologue :=
  match first.kind, statement with
  | .string value, .expression (.text _) =>
    let isStrict := value == some "use strict" && first.stop == first.start + 12
    if prologue.isOpen && isStrict && prologue.strict.isNone then
      { prologue with strict := some first.start }
    else prologue
  | _, _ => { prologue with isOpen := false }

/-- Statements up to a closing brace or the end of the text; the offset of the directive
`use strict`, if they begin with it. -/
def statements : Reader (Option Nat) := do
  let step (prologue : Prologue) : Reader (Option Prologue) := do
    let next ← token
    if next.isPunct "\x7d" || next.isEnd then return none
    return some (prologue.add next (← g.parse (.statement true)))
  return (← iterate step ⟨true, none⟩).strict

/-- A block with its braces; the offset of the directive `use strict` in it. -/
def block : Reader (Option Nat) := do
  expect "\x7b"
  let strict ← bracketed (statements g)
  unless ← eat "\x7d" do note (← here)
  return strict

/-- The body of a function with these parameters. Only one whose parameters are names may have the
directive `use strict`, and what exists elsewhere has no body. -/
def functionBlock (params : List Pattern) : Reader Unit := do
  noteIf ((← isTyped) && (← read).ambient) (← here)
  let strict ← block g
  unless params.all (·.isName) do strict.forM note

/-- The body of a function, without which it may do where type syntax is allowed; whether it has
one. Only where it has one may its parameters have default values. -/
def functionBody (marks : FunctionMarks) (params : List Pattern) : Reader Bool := do
  if (← isTyped) && !(← atPunct "\x7b") then
    if ← semicolon then return false
  within marks.bodyContext (functionBlock g params)
  return true

def refuseDefaults (params : List Pattern) : Reader Unit :=
  params.forM fun
    | .withDefault place _ => note place.start
    | _ => pure ()

/-- A function from its type parameters on, and whether it has a body; `start` is the offset of its
first token. -/
def functionTail (start : Nat) (marks : FunctionMarks) : Reader (FunctionShape × Bool) :=
  within ({ · with inField := false }) do
    typeParameters? g .ofFunction
    expect "("
    let params ← within marks.parameterContext do
      let params ← parameters g
      marks.rule.check params
      return params
    expect ")"
    let hasReturnType ← returnType? g
    let bodyStart ← here
    let hasBody ← functionBody g marks params
    unless hasBody do refuseDefaults params
    let bodyStart ← if hasBody then pure bodyStart else behind
    return ({ start, params, hasReturnType, isAsync := marks.isAsync
              isGenerator := marks.isGenerator, bodyStart }, hasBody)

/-- A function from the word `function` on, and whether it has a body; `named` tells whether it must
have a name. -/
def functionFrom (start : Nat) (isAsync named : Bool) :
    Reader (Option String × FunctionShape × Bool) := do
  expectWord "function"
  let isGenerator ← eat "*"
  let name ← if named then pure (some (← declaredName).2) else declaredName?
  let shape ← within ({ · with hasSuper := false })
    (functionTail g start ⟨isAsync, isGenerator, .free⟩)
  return (name, shape)

/-- What stands before the key of a member. -/
structure MemberHead where
  /-- The offset of its first token. -/
  start : Nat
  /-- The offset of the word `declare`. -/
  declaredAt : Option Nat
  /-- It is told who may use the member. -/
  hasAccess : Bool
  /-- The offset of the word `static`. -/
  staticAt : Option Nat
  isStatic : Bool
  isAccessor : Bool
  isAbstract : Bool
  isOverride : Bool
  isReadonly : Bool
  /-- The offset of the last of the words `abstract`, `readonly`, `override` and `static` that were
  read as one group. -/
  modifierAt : Option Nat
  deriving DecidableEq, Repr, Inhabited

/-- What a class has to know of a member. -/
structure Member where
  /-- It is a constructor with a body. -/
  isConstructor : Bool
  /-- It has no value, and only classes that are abstract themselves have such members. -/
  isAbstract : Bool
  deriving DecidableEq, Repr, Inhabited

def Member.ordinary : Member := ⟨false, false⟩

def atMethod : Reader Bool := return (← atPunct "(") || ((← isTyped) && (← atPunct "<"))

/-- The next token goes on a field after its key; whether the field may end at a line break. -/
def atField (mayBreak : Bool) : Reader Bool := do
  let t ← token
  return t.isPunctOf ["=", "\x7d", ";"] || ((← isTyped) && t.isPunctOf ["!", ":"])
    || (mayBreak && t.endsStatement)

def isConstructorKey (key : PropertyKey) : Bool :=
  key.name == some "constructor" && !key.isPrivate

def memberKeyword : Reader PropertyKey := do
  let t ← token
  match t.kind with
  | .privateName name =>
    noteIf (name == "constructor") t.start
    advance
    return { PropertyKey.ofToken t (some name) false with isPrivate := true }
  | _ => propertyKey g

def methodTail (head : MemberHead) (key : PropertyKey) (marks : FunctionMarks) :
    Reader Member := do
  let (_, hasBody) ← functionTail g head.start marks
  noteIf (if key.isPrivate then head.hasAccess else head.isAbstract && hasBody) head.start
  return ⟨false, head.isAbstract && !key.isPrivate⟩

def fieldTail (head : MemberHead) (key : PropertyKey) (isOptional : Bool) : Reader Member := do
  if isConstructorKey key then throw key.span.start
  noteIf (key.isPrivate && (head.declaredAt.isSome || head.isAbstract)) key.span.start
  if (← isTyped) && !isOptional then discard <| eat "!"
  discard <| typeAfterColon? g
  let hasValue ← eat "="
  if hasValue then
    discard <| within ({ · with inField := true }) (bracketed (g.parse .assignment))
  unless ← semicolon do note (← here)
  if head.isAccessor then return .ordinary
  noteIf (if key.isPrivate then head.hasAccess else head.isAbstract && hasValue) head.start
  return ⟨false, head.isAbstract && !key.isPrivate⟩

/-- A member whose key is the word that has just been passed, if it is one. -/
def memberNamed? (head : MemberHead) (word : Token) (mayBreak : Bool) :
    Reader (Option Member) := do
  let key := PropertyKey.ofToken word word.word? true
  if ← atMethod then return some (← methodTail g head key .none)
  else if (← atField mayBreak) || ((← isTyped) && (← atPunct "?")) then
    return some (← fieldTail g head key (← eatTyped "?"))
  else return none

structure ConstructorParameter where
  start : Nat
  /-- The parameter becomes a property. -/
  isProperty : Bool
  pattern : Pattern
  deriving Repr, Inhabited

/-- The words that tell who may use a member; whether there is one. Those of type parameters are
noted. -/
def memberAccess : Reader Bool := do
  unless ← isTyped do return false
  match ← modifier? ["public", "protected", "private", "in", "out"] with
  | none => return false
  | some t =>
    let misplaced := t.isWordOf ["in", "out"]
    noteIf misplaced t.start
    return !misplaced

def constructorParameter : Reader ConstructorParameter := do
  let start ← here
  let hasAccess ← memberAccess
  let isOverride ← do if ← isTyped then pure (← modifier? ["override"]).isSome else pure false
  let isReadonly ← do if ← isTyped then pure (← modifier? ["readonly"]).isSome else pure false
  let pattern ← parameter g
  let isProperty := hasAccess || isOverride || isReadonly
  match pattern with
  | .name _ _ _ | .withDefault _ _ => pure ()
  | _ => if isProperty then throw pattern.span.start
  return { start, isProperty, pattern }

/-- A rest parameter of a constructor after its dots, which are at `start`. -/
def constructorRest (start : Nat) : Reader ConstructorParameter := do
  let target ← g.parse .binding
  let typeStop ← typeAfterColon? g
  return ⟨start, false, .rest (← spanFrom start) typeStop target⟩

/-- Type parameters, which a constructor does not have. -/
def constructorTypes : Reader Unit := do
  if (← isTyped) && (← atPunct "<") then
    let first ← peek
    typeParameters g .ofFunction
    noteIf (!first.isPunct ">") first.start

def constructorTail (head : MemberHead) : Reader Member := do
  noteIf head.isOverride head.start
  constructorTypes g
  expect "("
  let params ← bracketed (parameterList (constructorParameter g) (constructorRest g))
  expect ")"
  if ← eatTyped ":" then
    let type ← here
    g.parse .typeExpression
    note type
  let patterns := params.map (·.pattern)
  let hasBody ← functionBody g .none patterns
  unless hasBody do
    params.forM fun p => noteIf p.isProperty p.start
    refuseDefaults patterns
  head.staticAt.forM note
  if head.isAbstract then head.modifierAt.forM note
  return ⟨hasBody, false⟩

/-- The head with another of the words `abstract`, `readonly`, `override` and `static`; whether the
word has no place there. Whether the class extends another is known. -/
def MemberHead.add (head : MemberHead) (extending : Bool) (word : String) (offset : Nat) :
    MemberHead × Bool :=
  let next := { head with modifierAt := some offset }
  match word with
  | "abstract" => ({ next with isAbstract := true }, head.isAbstract || head.isOverride)
  | "override" =>
    ({ next with isOverride := true },
      head.isOverride || head.isReadonly || head.declaredAt.isSome || !extending)
  | "readonly" => ({ next with isReadonly := true }, head.isReadonly)
  | _ => ({ next with isStatic := true }, head.isOverride)

/-- Passes the next of these words, if there is one. A block may follow the word `static`. -/
def memberModifier? (extending : Bool) (head : MemberHead) : Reader (Option MemberHead) := do
  unless ← isTyped do return none
  if (← atWord "static") && (← peek).isPunct "\x7b" then return none
  match ← modifier? ["abstract", "readonly", "override", "static"] with
  | none => return none
  | some t =>
    let (next, misplaced) := head.add extending (t.word?.getD "") t.start
    noteIf misplaced t.start
    return some next

/-- Passes the word `accessor` after the others, unless it is the name of a method. -/
def lateAccessor (head : MemberHead) : Reader MemberHead := do
  if (← isTyped) && !head.isAccessor && !head.isReadonly && (← atWord "accessor")
      && !(← peek).isPunct "(" then
    advance
    return { head with isAccessor := true }
  return head

def staticBlock : Reader Member := do
  discard <| within ({ · with inField := true }) (block g)
  return .ordinary

/-- The rest of a member that is waited for or hands out values, after the word `async`. -/
def asyncMember (head : MemberHead) : Reader Member := do
  if ← isTyped then
    if let some t ← modifier? ["override"] then note t.start
  let isGenerator ← eat "*"
  let key ← memberKeyword g
  if isConstructorKey key then throw key.span.start
  if head.isReadonly then throw head.start
  discard <| eatTyped "?"
  methodTail g head key ⟨true, isGenerator, .free⟩

/-- The rest of a member that gives or takes the value of a property, after its first word, which is
at `offset`. -/
def accessorMember (head : MemberHead) (isGetter : Bool) (offset : Nat) : Reader Member := do
  let key ← memberKeyword g
  noteIf (head.isReadonly || isConstructorKey key) offset
  methodTail g head key ⟨false, false, if isGetter then .getter offset else .setter offset⟩

def keyedMember (head : MemberHead) : Reader Member := do
  let key ← memberKeyword g
  let isOptional ← eatTyped "?"
  if ← atMethod then
    head.declaredAt.forM note
    if head.isReadonly then throw head.start
    if isConstructorKey key then constructorTail g head
    else methodTail g head key .none
  else
    let next ← token
    let isGetter := key.word? == some "get"
    let isAccessor := (isGetter || key.word? == some "set") && !(← atField false)
      && !(next.afterBreak && next.isPunct "*")
    if !isAccessor && (← atField true) then fieldTail g head key isOptional
    else if isAccessor then accessorMember g head isGetter key.span.start
    else if key.word? == some "async" && !next.afterBreak then asyncMember g head
    else fail

/-- A member from the words `abstract`, `readonly`, `override` and `static` on. -/
def modifiedMember (extending : Bool) (head : MemberHead) : Reader Member := do
  let head ← iterate (memberModifier? extending) head
  let head ← lateAccessor head
  if head.isStatic && (← atPunct "\x7b") then
    head.declaredAt.forM note
    noteIf head.hasAccess (← here)
    staticBlock g
  else if (← atWord "static") && (← peek).isPunct "\x7b" then
    head.modifierAt.forM note
    head.staticAt.forM note
    advance
    staticBlock g
  else if (← isTyped) && !head.isAbstract && !head.isOverride && !head.hasAccess
      && (← atIndexSignature) then
    indexSignature g
    return .ordinary
  else if ← eat "*" then
    let key ← memberKeyword g
    noteIf (head.isReadonly || isConstructorKey key) head.start
    methodTail g head key ⟨false, true, .free⟩
  else keyedMember g head

/-- A member from the words `static` and `accessor` on, which may be its name. -/
def placedMember (extending : Bool) (head : MemberHead) : Reader Member := do
  let word ← token
  let isStatic ← eatWord "static"
  let late ← token
  let isAccessor ← eatTypedWord "accessor"
  if isStatic then
    if let some member ← memberNamed? g head word false then return member
  if isAccessor then
    if let some member ← memberNamed? g head late false then return member
  modifiedMember g extending
    { head with staticAt := if isStatic then some word.start else none, isStatic, isAccessor }

/-- Passes the word `declare`, which may be the name of the member. -/
def declaredMember? (head : MemberHead) : Reader (Except Member MemberHead) := do
  let word ← token
  if head.declaredAt.isSome then return .ok head
  unless ← eatTypedWord "declare" do return .ok head
  match ← memberNamed? g head word true with
  | some member => return .error member
  | none => return .ok { head with declaredAt := some head.start }

def classMember (extending : Bool) : Reader Member := do
  let start ← here
  let head : MemberHead :=
    { start, declaredAt := none, hasAccess := false, staticAt := none, isStatic := false
      isAccessor := false, isAbstract := false, isOverride := false, isReadonly := false
      modifierAt := none }
  match ← declaredMember? g head with
  | .error member => return member
  | .ok head =>
    let hasAccess ← memberAccess
    match ← declaredMember? g { head with hasAccess } with
    | .error member => return member
    | .ok head => placedMember g extending head

/-- The members of a class, of which one at most is a constructor with a body; the offsets of those
that are abstract. -/
def classMembers (extending : Bool) : Reader (List Nat) := do
  let step (done : Bool × List Nat) : Reader (Option (Bool × List Nat)) := do
    let next ← token
    if next.isPunct "\x7d" || next.isEnd then return none
    if ← eat ";" then return some done
    let member ← classMember g extending
    noteIf (done.1 && member.isConstructor && !(← read).ambient) next.start
    return some (done.1 || member.isConstructor,
      if member.isAbstract then next.start :: done.2 else done.2)
  return (← iterate step (false, [])).2.reverse

def atAncestorsEnd : Reader Bool := do
  let t ← token
  return t.isPunct "\x7b" || t.isWordOf ["extends", "implements"]

/-- A type that a class or interface is declared to have, which is a name with members; where it
begins. -/
def ancestor : Reader Nat := do
  let t ← token
  let name ← anyIdentifier
  let term ← g.parse (.qualified (.ofName ⟨t.start, t.stop⟩ name))
  let named : List TermForm := [.name, .member, .instantiated]
  noteIf (!named.contains term.form) t.start
  if ← atPunct "<" then typeArguments g
  return t.start

/-- The types that a class or interface is declared to have; where they begin. -/
def ancestors : Reader (List Nat) := collect do
  if ← atAncestorsEnd then return none
  let start ← ancestor g
  unless ← eat "," do
    unless ← atAncestorsEnd do fail
  return some start

def parentClass : Reader Unit := do
  discard <| g.parse .access
  if (← isTyped) && (← atPunct "<") then typeArguments g

/-- Passes one of the words before ancestors where it has no place. -/
def misplacedWord (word : String) : Reader Bool := do
  let offset ← here
  let found ← eatWord word
  noteIf found offset
  return found

/-- What a class extends and implements; whether it extends another. Each is told once, and first
the one class that it extends. -/
def classAncestors : Reader Bool := do
  let extending ← eatWord "extends"
  if extending then
    parentClass g
    if ← eatTyped "," then (← ancestors g).forM note
  if ← misplacedWord "extends" then parentClass g
  if ← isTyped then
    if ← eatWord "implements" then discard <| ancestors g
    if ← misplacedWord "implements" then discard <| ancestors g
    if ← misplacedWord "extends" then
      parentClass g
      return true
  return extending

/-- A class from its type parameters on. Only an abstract one has abstract members. -/
def classTail (isAbstract : Bool) : Reader Unit := do
  typeParameters? g .ofClass
  let extending ← classAncestors g
  expect "\x7b"
  let abstracts ← within ({ · with hasSuper := true }) (bracketed (classMembers g extending))
  unless ← eat "\x7d" do
    unless (← token).isEnd do fail
    note (← here)
  unless isAbstract do abstracts.forM note

/-- The names that classes and interfaces cannot have because they are those of other types. -/
def typeNames : List String :=
  ["any", "bigint", "boolean", "intrinsic", "never", "null", "number", "object", "string",
   "symbol", "unknown", "void"]

/-- The name of a class; `named` tells whether it must have one. -/
def className (named : Bool) : Reader (Option String) := do
  let t ← token
  refuseLet
  let name ← do
    if named then pure (some (← declaredName).2)
    else if (← isTyped) && t.isWord "implements" then pure none
    else declaredName?
  noteIf ((← isTyped) && (name.map typeNames.contains).getD false) t.start
  return name

/-- A class from the word `class` on; `named` tells whether it must have a name. -/
def classFrom (named isAbstract : Bool) : Reader (Option String) := do
  expectWord "class"
  within ({ · with hasNewTarget := true }) do
    let name ← className named
    classTail g isAbstract
    return name

end TypedSvelte.Script.Grammar
