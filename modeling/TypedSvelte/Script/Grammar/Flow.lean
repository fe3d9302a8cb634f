import TypedSvelte.Script.Grammar.Declared

/-!
# Statements
-/
namespace TypedSvelte.Script.Grammar

variable (g : Grammar)

def condition : Reader Unit := do
  expect "("
  discard <| bracketed (g.parse .expression)
  expect ")"

/-- A statement within another one that is not kept. -/
def nested : Reader Unit := do discard (g.parse (.statement false))

def loopBody : Reader Unit := within ({ · with inLoop := true, canBreak := true }) (nested g)

def ifStatement : Reader Unit := do
  expectWord "if"
  condition g
  nested g
  if ← eatWord "else" then nested g

def whileStatement : Reader Unit := do
  expectWord "while"
  condition g
  loopBody g

def doStatement : Reader Unit := do
  expectWord "do"
  loopBody g
  expectWord "while"
  condition g
  discard <| eat ";"

/-- The next tokens are a variable that is to be disposed of, in the head of a loop over the members
of something. -/
def atLoopDisposable : Reader Bool := lookahead do
  unless ← isTyped do return false
  discard <| eatWord "await"
  expectWord "using"
  let next ← token
  return next.isIdent && !next.isWord "of" && (← peek).isWordOf ["of", "in"]

/-- The rest of a loop over the members of something, from the word `of` or `in` on. -/
def eachTail : Reader Unit := do
  let isOf ← atWord "of"
  advance
  if isOf then discard <| g.parse .assignment else discard <| g.parse .expression

def countTail : Reader Unit := do
  expect ";"
  unless ← atPunct ";" do discard <| g.parse .expression
  expect ";"
  unless ← atPunct ")" do discard <| g.parse .expression

/-- Notes what is wrong with the variables of a loop over the members of something. It has one, with
neither a value nor a type of its own. -/
def checkLoopVariables (list : List Declarator) : Reader Unit := do
  match list with
  | [declared] =>
    let start := declared.target.span.start
    noteIf declared.initial.isSome start
    noteIf ((← isTyped) && declared.target.isTyped) start
  | _ => list.tail.forM fun declared => note declared.target.span.start

/-- The variables of a loop are missing: the next tokens go on its head to the end. -/
def missesVariables : Reader Bool := lookahead do
  unless (← isTyped) && (← atEach) do return false
  advance
  discard <| g.parse .assignment
  atPunct ")"

/-- The variables of a loop. In the values of those that are declared by `var`, the operator `in`
needs brackets around it. -/
def loopVariables : Reader Unit := do
  let kind := VariableKind.ofWord (← anyWord)
  if ← missesVariables g then note (← behind)
  else
    let list ← within ({ · with noIn := kind == .plain }) (declarators g kind true)
    if ← atEach then checkLoopVariables list

/-- Takes an expression for the target of a loop over the members of something. Where type syntax is
allowed, the keys of an object go to a name or member. -/
def loopTarget (first : Term) : Reader Unit := do
  let target ← first.target
  if (← isTyped) && (← atWord "in") then
    match target with
    | .name _ _ _ | .other _ => return
    | _ => note target.span.start

/-- The first part of a loop's head; it is missing in a loop that only counts. -/
def loopStart : Reader Unit := do
  if ← atVariables then loopVariables g
  else if ← atLoopDisposable then
    let start ← here
    if ← eatWord "await" then
      let context ← read
      noteIf (context.inFunction && !context.inAsync) start
    expectWord "using"
    discard declaredName
  else
    let first ← within ({ · with noIn := true }) (g.parse .expression)
    if ← atEach then loopTarget first

/-- A loop with a head of its own. Only a loop over the members of something can wait for them. -/
def forStatement : Reader Unit := do
  expectWord "for"
  let waiting ← here
  let isAwaited ← eatWord "await"
  expect "("
  let isOf ← within ({ · with inLoopHead := true, inAwaitedHead := isAwaited }) <| bracketed do
    unless ← atPunct ";" do loopStart g
    let isOf ← atWord "of"
    if ← atEach then eachTail g else countTail g
    return isOf
  expect ")"
  loopBody g
  if isAwaited && !isOf then throw waiting

def jumpStatement : Reader Unit := do
  let start ← here
  let isContinue ← atWord "continue"
  advance
  let label ← do
    if ← semicolon then pure none
    else
      let (_, name) ← identifier
      endStatement
      pure (some name)
  let context ← read
  let known := (label.map context.labels.contains).getD true
  noteIf (!known || !(if isContinue then context.inLoop else context.canBreak)) start

def returnStatement : Reader Unit := do
  let start ← here
  advance
  unless (← token).endsStatement do discard <| g.parse .expression
  endStatement
  noteIf (!(← read).inFunction) start

def throwStatement : Reader Unit := do
  advance
  if (← token).afterBreak then fail
  discard <| g.parse .expression
  endStatement

def caseBody : Reader Unit := repeatWhile do
  let next ← token
  if next.isWordOf ["case", "default"] || next.isPunct "\x7d" || next.isEnd then return false
  discard <| g.parse (.statement true)
  return true

def switchStatement : Reader Unit := do
  expectWord "switch"
  condition g
  expect "\x7b"
  let step (hasDefault : Bool) : Reader (Option Bool) := do
    if ← atPunct "\x7d" then return none
    let isDefault ← eatWord "default"
    if isDefault then
      if hasDefault then fail
    else
      expectWord "case"
      discard <| bracketed (g.parse .expression)
    expect ":"
    caseBody g
    return some (hasDefault || isDefault)
  discard <| within ({ · with canBreak := true }) (iterate step false)
  expect "\x7d"

/-- What is done about an error, if that is next; whether it is. -/
def catchClause : Reader Bool := do
  unless ← eatWord "catch" do return false
  if ← eat "(" then
    discard <| g.parse .binding
    discard <| typeAfterColon? g
    expect ")"
  discard <| block g
  return true

/-- What is done in any case, if that is next; whether it is. -/
def finallyClause : Reader Bool := do
  unless ← eatWord "finally" do return false
  discard <| block g
  return true

def tryStatement : Reader Unit := do
  advance
  discard <| block g
  let after ← here
  let caught ← catchClause g
  let finished ← finallyClause g
  noteIf (!caught && !finished) after

def strayClauses : Reader Unit := do
  note (← here)
  disregard (catchClause g)
  disregard (finallyClause g)

/-- A statement that takes names from an object, which modules do not admit. -/
def withStatement : Reader Unit := do
  note (← here)
  advance
  condition g
  nested g

/-- The statement after a label, which stands at `start`. A function cannot have one. -/
def labelledStatement (start : Nat) (label : String) : Reader Statement := do
  let outer := (← read).labels
  let body ← within ({ · with labels := label :: outer, canBreak := true }) do
    let first ← token
    let body ← g.parse (.statement (first.isWord "function"))
    noteIf (first.isWord "function") first.start
    return body
  noteIf (outer.contains label) start
  return .labelled label body

/-- The end of a statement that is an expression. A binary operator in its way is noted and taken
for one. -/
def endExpression (e : Term) : Reader Unit := do
  unless ← semicolon do
    unless (← token).isPunctOf binaryPunctuation do fail
    note (← here)
    discard <| g.parse (.operators e 0)

/-- A statement that begins with an expression: a label or a declaration, if the expression is a
name that is fit for it. -/
def expressionStatement : Reader Statement := do
  let start ← here
  let e ← bracketed (g.parse .expression)
  match e.name? with
  | none =>
    endExpression g e
    return .expression e.value
  | some name =>
    if ← eat ":" then return ← labelledStatement g start name
    if name == "interface" && (← token).afterBreak then return .expression e.value
    let declared ← do
      if ← isTyped then typedDeclaration? g start name else pure none
    match declared with
    | some declaration => return .declaration declaration
    | none =>
      endExpression g e
      return .expression e.value

/-- What begins with the word `import` within a statement: an expression. -/
def importStatement : Reader Statement := do
  unless (← peek).isPunctOf ["(", "."] do fail
  let e ← g.parse .expression
  discard semicolon
  return .expression e.value

/-- Notes what is wrong with variables that are to be disposed of: each is a name with a value. -/
def checkDisposable (start : Nat) (list : List Declarator) : Reader Unit := do
  noteIf (!(← isTyped)) start
  list.forM fun d => noteIf (!d.target.isName || d.initial.isNone) start

/-- A declaration of variables that are to be disposed of, if one is next. The statement begins at
`start`. -/
def disposableDeclaration? (start : Nat) : Reader (Option Declaration) := do
  let next ← peek
  unless (← atWord "using") && next.isIdent && !next.afterBreak do return none
  advance
  let list ← declarators g .plain false
  checkDisposable start list
  endVariables g
  return some (.disposable list)

/-- A statement that begins with the word `await`: an operand that is waited for, with binary
operators after it, or variables that are to be disposed of. -/
def awaitStatement : Reader Statement := do
  let start ← here
  expectWord "await"
  if let some declaration ← disposableDeclaration? g start then return .declaration declaration
  discard <| bracketed do g.parse (.operators (← awaitedFrom g start) 0)
  discard semicolon
  return .expression .other

def flowStatement? (word : String) : Option (Reader Unit) :=
  match word with
  | "if" => some (ifStatement g)
  | "for" => some (forStatement g)
  | "while" => some (whileStatement g)
  | "do" => some (doStatement g)
  | "break" | "continue" => some jumpStatement
  | "return" => some (returnStatement g)
  | "throw" => some (throwStatement g)
  | "switch" => some (switchStatement g)
  | "try" => some (tryStatement g)
  | "catch" | "finally" => some (strayClauses g)
  | "with" => some (withStatement g)
  | "debugger" => some (do advance; endStatement)
  | _ => none

/-- A declaration that begins with a word of its own, if one is next. Variables of a block are
declared in lists of statements only, and what else belongs there is noted elsewhere. -/
def wordDeclaration? (listed : Bool) : Reader (Option Declaration) := do
  let t ← token
  let next ← peek
  if ← atConstantEnum then return some (← constantEnum g)
  else if t.isWord "function" then
    noteIf (!listed) t.start
    return some (← functionDeclaration g t.start)
  else if t.isWord "class" then
    noteIf (!listed) t.start
    return some (← classDeclaration g false)
  else if t.isWord "var" || (listed && (← atVariables)) then
    return some (← variableDeclaration g)
  else if (← isTyped) && t.isWordOf ["enum", "interface", "type"] && next.word?.isSome
      && !next.afterBreak then
    wordedDeclaration? g
  else if ← atAsyncFunction then return some (← functionDeclaration g t.start)
  else return none

def wordStatement (listed : Bool) (word : String) : Reader Statement := do
  if let some reader := flowStatement? g word then
    reader
    return .other
  else if word == "import" then importStatement g
  else if word == "await" && listed then awaitStatement g
  else if let some declaration ← wordDeclaration? g listed then return .declaration declaration
  else
    if listed then
      if let some declaration ← disposableDeclaration? g (← here) then
        return .declaration declaration
    expressionStatement g

/-- A statement; whether it stands in a list of statements. -/
def statement (listed : Bool) : Reader Statement := do
  match (← token).kind with
  | .punct "\x7b" =>
    discard <| block g
    return .other
  | .punct ";" =>
    advance
    return .other
  | .word word false => wordStatement g listed word
  | _ => expressionStatement g

end TypedSvelte.Script.Grammar
