import TypedSvelte.Script.Grammar.Operator

/-!
# Declarations
-/
namespace TypedSvelte.Script.Grammar

variable (g : Grammar)

/-- The next token goes on the head of a loop over the members of something. -/
def atEach : Reader Bool := return (← token).isWordOf ["of", "in"]

inductive VariableKind where
  | plain
  /-- Variables of a block. -/
  | scoped
  | constant
  deriving DecidableEq, Repr, Inhabited

def VariableKind.ofWord : String → VariableKind
  | "const" => .constant
  | "let" => .scoped
  | _ => .plain

/-- One declarator of variables. A constant must have a value outside of a loop's head, and so must
a pattern, unless a loop gives it one. -/
def declarator (kind : VariableKind) (inHead : Bool) : Reader Declarator := do
  let start ← here
  unless kind == .plain do refuseLet
  let target ← g.parse .binding
  if (← isTyped) && target.isName then discard <| eat "!"
  let target := annotate (← typeAfterColon? g) target
  if inHead && (← atEach) then return ⟨target, none⟩
  if ← eat "=" then return ⟨target, some (← g.parse .assignment).value⟩
  unless (← read).ambient do
    if kind == .constant && !inHead then note start
    else unless target.isName do throw start
  return ⟨target, none⟩

/-- Declarators separated by commas, of which there is at least one. The word before them has been
passed. -/
def declarators (kind : VariableKind) (inHead : Bool) : Reader (List Declarator) := do
  let word ← behind
  let step (state : List Declarator × Bool) :
      Reader (Option (List Declarator × Bool)) := do
    if state.2 then return none
    let next ← token
    let last ← behind
    if next.isPunct ";" then
      note (if state.1.isEmpty then word else last - 1)
      return none
    let d ← declarator g kind inHead
    return some (d :: state.1, !(← eat ","))
  return (← iterate step ([], false)).1.reverse

/-- The end of a declaration of variables. What stands in its way is noted and passed over. -/
def endVariables : Reader Unit := do
  unless ← semicolon do
    note (← here)
    disregard (g.parse .expression)
    repeatWhile do
      if ← semicolon then return false
      match (← token).kind with
      | .invalid offset => throw offset
      | _ => advance
      return true

/-- The token goes on a declaration that begins with the word `let`. -/
def followsLet (t : Token) : Bool :=
  t.isIdent || t.isWordOf ["let", "yield", "await"] || t.isPunctOf ["[", "\x7b"]

def atVariables : Reader Bool := do
  let t ← token
  return t.isWordOf ["var", "const"] || (t.isWord "let" && followsLet (← peek))

def variableList (inHead : Bool) : Reader (List Declarator) := do
  let kind := VariableKind.ofWord (← anyWord)
  declarators g kind inHead

def variableDeclaration : Reader Declaration := do
  let list ← variableList g false
  endVariables g
  return .bindings list

/-- The declaration of a function, which counts as beginning at `start`. -/
def functionDeclaration (start : Nat) : Reader Declaration := do
  let isAsync ← eatWord "async"
  let (name, shape, _) ← functionFrom g start isAsync true
  return .function (name.getD "") shape

def classDeclaration (isAbstract : Bool) : Reader Declaration := do
  return .classNamed ((← classFrom g true isAbstract).getD "")

/-- The next tokens are `async function` on one line. -/
def atAsyncFunction : Reader Bool := do
  let next ← peek
  return (← atWord "async") && next.isWord "function" && !next.afterBreak

/-- The key of a member of an enumeration: a word or a string. -/
def enumKey : Reader Unit := do
  let t ← token
  match t.kind with
  | .number =>
    if (← position).text[t.stop - t.start - 1]? == some 'n' then fail
    note t.start
    advance
  | .punct "[" =>
    advance
    let key ← bracketed (g.parse .expression)
    expect "]"
    match key.value with
    | .text _ => return
    | _ => note t.start
  | .string _ => advance
  | _ => discard anyIdentifier

def enumMember : Reader Unit := do
  enumKey g
  if ← eat "=" then discard <| g.parse .assignment
  else
    let next ← token
    unless next.isPunctOf [",", "\x7d"] do
      if next.isEnd then fail
      advance
      note next.start

def enumTail : Reader Declaration := do
  let name ← anyIdentifier
  expect "\x7b"
  bracketed <| repeatWhile do
    if ← atPunct "\x7d" then return false
    enumMember g
    unless ← eat "," do
      unless ← atPunct "\x7d" do note (← here)
    return true
  expect "\x7d"
  return .enum name

def interfaceTail : Reader Declaration := do
  let start ← here
  let name ← anyIdentifier
  noteIf (typeNames.contains name) start
  typeParameters? g .ofType
  if ← eatWord "extends" then discard <| ancestors g
  if ← atWord "extends" then
    note (← here)
    repeatWhile do
      let next ← token
      if next.isEnd || next.isPunct "\x7b" then return false
      advance
      return true
  typeMembers g
  return .typeOnly

def typeTail : Reader Declaration := do
  discard anyIdentifier
  typeParameters? g .ofType
  expect "="
  g.parse .typeExpression
  endStatement
  return .typeOnly

def itemBlock : Reader Unit := do
  expect "\x7b"
  bracketed <| repeatWhile do
    let next ← token
    if next.isPunct "\x7d" || next.isEnd then return false
    discard <| g.parse .moduleItem
    return true
  unless ← eat "\x7d" do note (← here)

def namespaceTail : Reader Declaration := do
  discard anyIdentifier
  repeatWhile do
    if ← eat "." then
      discard anyIdentifier
      return true
    return false
  itemBlock g
  return .typeOnly

/-- A module that exists elsewhere, from its name on, which is a string or the word `global`. It may
do without items. -/
def moduleTail : Reader Declaration := do
  match (← token).kind with
  | .string _ => advance
  | _ =>
    expectWord "global"
    identify
  if ← atPunct "\x7b" then itemBlock g else endStatement
  return .typeOnly

/-- A constant enumeration, from the word `const` on. -/
def constantEnum : Reader Declaration := do
  expectWord "const"
  expectWord "enum"
  enumTail g

def atConstantEnum : Reader Bool :=
  return (← isTyped) && (← atWord "const") && (← peek).isWord "enum"

/-- A declaration that begins with a word of type syntax, which has been passed, if what is next
goes on it. Where nothing else is possible, it `must` go on. -/
def declarationAfter? (word : String) (must : Bool) : Reader (Option Declaration) := do
  let next ← token
  let named := must || next.isIdent
  match word with
  | "abstract" =>
    if must || (next.isWord "class" && !next.afterBreak) then
      return some (← classDeclaration g true)
    return none
  | "enum" => if named then return some (← enumTail g) else return none
  | "interface" => if named then return some (← interfaceTail g) else return none
  | "module" =>
    if !must && next.afterBreak then return none
    match next.kind with
    | .string _ => return some (← moduleTail g)
    | .endOfText => fail
    | _ => if named then return some (← namespaceTail g) else return none
  | "namespace" => if named then return some (← namespaceTail g) else return none
  | "type" =>
    if must || (named && !next.afterBreak) then return some (← typeTail g) else return none
  | _ => return none

def declarationWords : List String :=
  ["abstract", "enum", "interface", "module", "namespace", "type"]

/-- A declaration of type syntax, from its word on, if that is next. The word `module` stands on the
line of the word before it. -/
def wordedDeclaration? : Reader (Option Declaration) := do
  let t ← token
  if t.isWordOf declarationWords && !(t.isWord "module" && t.afterBreak) then
    advance
    declarationAfter? g (t.word?.getD "") true
  else return none

/-- A declaration of something that exists elsewhere, after the word `declare`, which is at `start`,
if one is next. There is no such declaration within another. -/
def ambientDeclaration? (start : Nat) : Reader (Option Declaration) := do
  noteIf (← read).ambient start
  within ({ · with ambient := true }) do
    let t ← token
    if t.isWord "function" then return some (← functionDeclaration g start)
    else if t.isWord "class" then return some (← classDeclaration g false)
    else if ← atConstantEnum then return some (← constantEnum g)
    else if t.isWordOf ["const", "let", "var"] then return some (← variableDeclaration g)
    else if t.isWord "global" then return some (← moduleTail g)
    else wordedDeclaration? g

/-- A declaration of type syntax after the word or name `word` at `start`, which has been read as an
expression, if what is next goes on one. -/
def typedDeclaration? (start : Nat) (word : String) : Reader (Option Declaration) := do
  match word with
  | "declare" => ambientDeclaration? g start
  | "global" =>
    if ← atPunct "\x7b" then
      itemBlock g
      return some .typeOnly
    return none
  | _ => declarationAfter? g word false

end TypedSvelte.Script.Grammar
