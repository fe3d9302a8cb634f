import TypedSvelte.Script.Grammar.Binding

/-!
# Type syntax

Types leave no trace in an outline beyond where they end, so their readers give nothing.
-/
namespace TypedSvelte.Script.Grammar

variable (g : Grammar)

/-- An identifier, and the names of members behind dots. The identifier may be any word; whether the
names may be, too. -/
def entityName (anyWords : Bool) : Reader Unit := do
  let first ← token
  discard anyIdentifier
  noteIf (first.isWord "void") (← here)
  repeatWhile do
    unless ← eat "." do return false
    match (← token).kind with
    | .word _ _ =>
      if anyWords then discard anyWord else discard unreservedWord
      return true
    | .privateName _ => fail
    | _ =>
      note (← here)
      return false

/-- Type arguments with their angle brackets, of which there is at least one. -/
def typeArguments : Reader Unit := do
  let start ← here
  expectChar '<'
  noteIf (← atChar '>') start
  discard <| bracketed (angleList (g.parse .typeExpression))

/-- Type arguments, if an angle bracket is next on the same line. -/
def typeArguments? : Reader Unit := do
  if (← atChar '<') && !(← token).afterBreak then typeArguments g

/-- The words that may stand before a type parameter. -/
structure TypeParameterWords where
  /-- The words `in` and `out`. -/
  variances : Bool
  /-- The word `const`. -/
  constant : Bool
  deriving DecidableEq, Repr, Inhabited

def TypeParameterWords.ofFunction : TypeParameterWords := ⟨false, true⟩

def TypeParameterWords.ofType : TypeParameterWords := ⟨true, false⟩

def TypeParameterWords.ofClass : TypeParameterWords := ⟨true, true⟩

/-- The word may stand before a type parameter and after the words given. -/
def TypeParameterWords.allow (words : TypeParameterWords) (before : List String) : String → Bool
  | "const" => words.constant
  | "in" => words.variances && !before.contains "in" && !before.contains "out"
  | "out" => words.variances && !before.contains "out"
  | _ => false

def typeParameterWords (words : TypeParameterWords) : Reader Unit := do
  let step (before : List String) : Reader (Option (List String)) := do
    let found ← modifier? ["public", "private", "protected", "readonly", "abstract", "const",
      "override", "in", "out"]
    match found with
    | none => return none
    | some t =>
      let name := t.word?.getD ""
      noteIf (!words.allow before name) t.start
      return some (name :: before)
  discard <| iterate step []

/-- A type parameter: its name, its bound and its default. -/
def typeParameter (words : TypeParameterWords) : Reader Unit := do
  typeParameterWords words
  discard anyIdentifier
  if ← eatWord "extends" then g.parse .typeExpression
  if ← eat "=" then g.parse .typeExpression

/-- Type parameters with their angle brackets, of which there is at least one. -/
def typeParameters (words : TypeParameterWords) : Reader Unit := do
  let start ← here
  expectChar '<'
  noteIf (← atChar '>') start
  discard <| bracketed (angleList (typeParameter g words))

/-- Type parameters, if type syntax is allowed and an angle bracket is next. -/
def typeParameters? (words : TypeParameterWords) : Reader Unit := do
  if (← isTyped) && (← atPunct "<") then typeParameters g words

/-- What follows the mark of a return type: a type or a predicate on a parameter. -/
def returnType : Reader Unit := do
  let asserts := (← token).isWord "asserts" && (← peek).isIdent
  if asserts then advance
  let second ← peek
  let isTest := (← token).isIdent && second.isWord "is" && !second.afterBreak
  if asserts || isTest then discard anyIdentifier
  if isTest then advance
  if isTest || !asserts then g.parse .typeExpression

/-- A return type, if type syntax is allowed and one is next; whether there is one. -/
def returnType? : Reader Bool := do
  if (← isTyped) && (← atPunct ":") then
    advance
    bracketed (returnType g)
    return true
  return false

/-- The parameters of a signature with their parentheses, which have no default values; whether
there are any. -/
def signatureParameters : Reader Bool := do
  expect "("
  let params ← parameters g
  if params.any fun | .withDefault _ _ => true | _ => false then fail
  expect ")"
  return !params.isEmpty

def signature : Reader Unit := do
  typeParameters? g .ofFunction
  discard <| signatureParameters g
  discard <| returnType? g

/-- A function type or the type of a constructor, from its parameters on. -/
def functionType : Reader Unit := do
  typeParameters? g .ofFunction
  discard <| signatureParameters g
  expect "=>"
  bracketed (returnType g)

def endMember : Reader Unit := do
  unless ← eat "," do endStatement

def atIndexSignature : Reader Bool := lookahead do
  expect "["
  unless (← token).isIdent do fail
  advance
  return (← token).isPunctOf [":", ","]

/-- An index signature with its end, from its opening bracket on. It has one key. -/
def indexSignature : Reader Unit := do
  expect "["
  let key ← here
  discard anyIdentifier
  if ← eat "," then note key else expect ":"
  bracketed (g.parse .typeExpression)
  expect "]"
  discard <| typeAfterColon? g
  endMember

def typeMemberKey : Reader Unit := do
  let t ← token
  match t.kind with
  | .string _ | .number => discard <| g.parse .callee
  | .privateName _ =>
    note t.start
    advance
  | .word _ _ =>
    advance
    identify
  | _ =>
    expect "["
    discard <| bracketed (g.parse .assignment)
    expect "]"

def accessorSignature : Reader Unit := do
  let isGetter ← eatWord "get"
  unless isGetter do expectWord "set"
  typeMemberKey g
  let hasParameters ← signatureParameters g
  if hasParameters == isGetter then fail
  if isGetter then discard <| typeAfterColon? g
  endMember

/-- A property or method. Methods are always read-only. -/
def namedSignature (isReadonly : Bool) : Reader Unit := do
  typeMemberKey g
  discard <| eat "?"
  if (← atPunct "(") || (← atPunct "<") then
    if isReadonly then fail
    signature g
  else discard <| typeAfterColon? g
  endMember

def typeMember : Reader Unit := do
  if (← atPunct "(") || (← atPunct "<") then
    signature g
    endMember
  else if (← atWord "new") && ((← peek).isPunctOf ["(", "<"]) then
    advance
    signature g
    endMember
  else
    let isReadonly := (← modifier? ["readonly"]).isSome
    if ← atIndexSignature then indexSignature g
    else
      let isAccessor ← do
        if isReadonly then pure false else pure (← trial (accessorSignature g)).isSome
      unless isAccessor do namedSignature g isReadonly

def typeMembers : Reader Unit := do
  expect "\x7b"
  bracketed <| repeatWhile do
    if ← atPunct "\x7d" then return false
    typeMember g
    return true
  expect "\x7d"

/-- Passes a sign, if one is next. -/
def sign : Reader Bool := do
  if ← eat "+" then return true
  eat "-"

def atMappedType : Reader Bool := lookahead do
  expect "\x7b"
  if ← sign then return ← atWord "readonly"
  discard <| eatWord "readonly"
  expect "["
  unless (← token).isIdent do fail
  advance
  atWord "in"

def mappedType : Reader Unit := do
  expect "\x7b"
  if ← sign then expectWord "readonly" else discard <| eatWord "readonly"
  expect "["
  discard anyIdentifier
  expectWord "in"
  bracketed do
    g.parse .typeExpression
    if ← eatWord "as" then g.parse .typeExpression
  expect "]"
  if ← sign then expect "?" else discard <| eat "?"
  bracketed do discard <| typeAfterColon? g
  endStatement
  expect "\x7d"

inductive TupleElement where
  | required | optional | rest
  deriving DecidableEq, Repr, Inhabited

/-- The label of an element of a tuple type, if one is next. -/
def tupleLabel? : Reader Unit := do
  discard <| trial do
    discard <| eat "..."
    discard anyIdentifier
    discard <| eat "?"
    expect ":"

def tupleElement : Reader TupleElement := do
  tupleLabel?
  let isRest ← eat "..."
  g.parse .typeExpression
  if isRest then return .rest
  return if ← eat "?" then .optional else .required

def elementsFit : List TupleElement → Bool
  | [] => true
  | .optional :: others => !others.contains .required
  | _ :: others => elementsFit others

def tupleType : Reader Unit := do
  let start ← here
  expect "["
  let elements ← bracketed (commaList "]" (tupleElement g))
  unless elementsFit elements do throw start

def typeAttributes : Reader Unit := do
  expect "\x7b"
  expectWord "with"
  expect ":"
  discard <| g.parse .object
  discard <| eat ","
  expect "\x7d"

def importedType : Reader Unit := do
  expectWord "import"
  expect "("
  let t ← token
  match t.kind with
  | .string _ => advance
  | .invalid _ | .endOfText => fail
  | _ =>
    advance
    note t.start
  if (← eat ",") && (← atPunct "\x7b") then typeAttributes g
  expect ")"
  if ← eat "." then entityName false
  if ← atChar '<' then typeArguments g

def typeQuery : Reader Unit := do
  expectWord "typeof"
  if ← atWord "import" then importedType g
  else
    entityName true
    typeArguments? g

def typeReference : Reader Unit := do
  let start ← here
  let modified ← accessWord
  entityName true
  typeArguments? g
  noteIf modified start

def receiverType : Reader Unit := do
  expectWord "this"
  if (← atWord "is") && !(← token).afterBreak then
    advance
    g.parse .typeExpression

def typeWords : List String :=
  ["any", "bigint", "boolean", "intrinsic", "never", "null", "number", "object", "string",
   "symbol", "undefined", "unknown", "void"]

def wordType (t : Token) : Reader Unit := do
  let next ← peek
  if t.isWord "typeof" then typeQuery g
  else if t.isWord "import" then importedType g
  else if t.isWord "this" then receiverType g
  else if t.isWordOf ["true", "false"] then advance
  else if t.isWord "asserts" && next.isWord "this" then
    advance
    advance
    if ← eatWord "is" then g.parse .typeExpression
  else if t.isWordOf typeWords && !next.isPunct "." then advance
  else if t.isIdent || t.isWordOf ["await", "break", "null", "void", "yield"] then typeReference g
  else fail

def primaryType : Reader Unit := do
  let t ← token
  match t.kind with
  | .string _ | .number => advance
  | .word _ _ => wordType g t
  | .punct "\x7b" => if ← atMappedType then mappedType g else typeMembers g
  | .punct "[" => tupleType g
  | .punct "(" =>
    advance
    bracketed (g.parse .typeExpression)
    expect ")"
  | .punct "-" =>
    advance
    match (← token).kind with
    | .number => advance
    | _ => fail
  | .punct "`" => discard <| template true (bracketed (g.parse .typeExpression))
  | _ => fail

def indexedType : Reader Unit := do
  primaryType g
  repeatWhile do
    if (← token).afterBreak then return false
    if ← eat "[" then
      unless ← atPunct "]" do bracketed (g.parse .typeExpression)
      expect "]"
      return true
    return false

/-- The bound of an inferred type, if one is next. Where conditional types are allowed, a question
mark after it makes it the test of one. -/
def inferredBound : Reader Unit := do
  discard <| trial do
    expectWord "extends"
    g.parse .unconditionalType
    if !(← read).noConditionalType && (← atPunct "?") then fail

def operatorType : Reader Unit := do
  repeatWhile do
    if (← token).isWordOf ["keyof", "unique", "readonly"] then
      advance
      return true
    return false
  if ← eatWord "infer" then
    discard anyIdentifier
    inferredBound g
  else indexedType g

def joinedTypes (operator : String) (operand : Reader Unit) : Reader Unit := do
  discard <| eat operator
  operand
  repeatWhile do
    if ← eat operator then
      operand
      return true
    return false

def unionType : Reader Unit := joinedTypes "|" (joinedTypes "&" (operatorType g))

def parameterBeginning : Reader Unit := do
  discard accessWord
  let t ← token
  if t.isIdent || t.isWord "this" then advance
  else if t.isPunctOf ["[", "\x7b"] then discard <| g.parse .binding
  else fail

/-- The next tokens begin a function type rather than a type in parentheses. -/
def atFunctionType : Reader Bool := do
  if ← atPunct "<" then return true
  lookahead do
    expect "("
    if (← token).isPunctOf [")", "..."] then return true
    parameterBeginning g
    if (← token).isPunctOf [":", ",", "?", "="] then return true
    expect ")"
    atPunct "=>"

/-- A type that is no conditional type. -/
def unconditionalType : Reader Unit := do
  if ← atFunctionType g then functionType g
  else if (← atWord "abstract") && (← peek).isWord "new" then
    advance
    advance
    functionType g
  else if ← eatWord "new" then functionType g
  else unionType g

def typeExpression : Reader Unit := within ({ · with noConditionalType := false }) do
  unconditionalType g
  if (← token).afterBreak then return
  if ← eatWord "extends" then
    within ({ · with noConditionalType := true }) (unconditionalType g)
    expect "?"
    g.parse .typeExpression
    expect ":"
    g.parse .typeExpression

end TypedSvelte.Script.Grammar
