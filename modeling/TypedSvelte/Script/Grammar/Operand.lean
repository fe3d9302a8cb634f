import TypedSvelte.Script.Grammar.Literal

/-!
# Operands

An operand is a literal, a name, a function, a class, an expression in parentheses or one of the
forms that begin with `new`, `super` or `import`, with the accesses and calls that follow it.

What stands in parentheses may be the parameters of an arrow function. It is read as a list of
expressions, which an arrow after it turns into patterns.
-/
namespace TypedSvelte.Script.Grammar

variable (g : Grammar)

structure ArrowHead where
  start : Nat
  isAsync : Bool
  params : List Pattern
  hasReturnType : Bool
  deriving Repr, Inhabited

def ArrowHead.context (head : ArrowHead) (outer : Context) : Context :=
  { (FunctionMarks.mk head.isAsync false .free).bodyContext outer with
    hasNewTarget := outer.hasNewTarget }

def arrowTail (head : ArrowHead) : Reader Term := do
  let bodyStart ← here
  if ← atPunct "\x7b" then within head.context (functionBlock g head.params)
  else
    discard <| within
      (fun outer =>
        { head.context outer with noIn := outer.noIn, colonAhead := outer.colonAhead })
      (g.parse .assignment)
  let shape : FunctionShape :=
    { start := head.start, params := head.params, hasReturnType := head.hasReturnType,
      isAsync := head.isAsync, isGenerator := false, bodyStart }
  return .plain (← spanFrom head.start) .arrow (.arrow shape)

/-- An arrow function whose only parameter is a name without parentheses, from its body on. -/
def namedArrow (start : Nat) (isAsync : Bool) (place : Span) (name : String) : Reader Term :=
  arrowTail g { start, isAsync, params := [.name place name none], hasReturnType := false }

def restart (start : Nat) (arrow : Term) : Term :=
  let value := match arrow.value with
    | .arrow shape => .arrow { shape with start }
    | value => value
  { arrow with span := ⟨start, arrow.span.stop⟩, value }

/-- An asynchronous arrow function with type parameters, from the word `async` on. -/
def genericAsyncArrow : Reader Term := do
  let start ← here
  expectWord "async"
  typeParameters g .ofFunction
  expect "("
  let params ← parameters g
  expect ")"
  let hasReturnType ← returnType? g
  expect "=>"
  arrowTail g { start, isAsync := true, params, hasReturnType }

/-- What stands between two commas within parentheses. -/
inductive GroupItem where
  | expression (item : ListItem)
  /-- A pattern with a type, which can only be a parameter. -/
  | parameter (pattern : Pattern)
  deriving Repr, Inhabited

namespace GroupItem

def isName : GroupItem → Bool
  | expression (.plain term) | expression (.spread _ term) => term.name?.isSome
  | parameter pattern => pattern.isName

def isParameter : GroupItem → Bool
  | parameter _ => true
  | expression _ => false

/-- The expression that the item is, if it is no pattern; whether it is spread. -/
def term? : GroupItem → Option (Term × Bool)
  | expression (.plain term) => some (term, false)
  | expression (.spread _ term) => some (term, true)
  | parameter _ => none

/-- Takes the items for parameters. Only the last may be a rest, with neither a default value nor a
comma after it. -/
def parameters (comma : Option Nat) : List GroupItem → Reader (List Pattern)
  | [] => return []
  | [.parameter pattern] => do
    if pattern.isRest then comma.forM note
    return [pattern]
  | [.expression item] => Cover.elements true comma [item.cover]
  | .expression (.spread start _) :: items => do
    note start
    parameters comma items
  | .expression (.plain term) :: items => do
    let p ← term.cover.pattern true
    return p :: (← parameters comma items)
  | .parameter pattern :: items => do
    noteIf pattern.isRest pattern.span.start
    return pattern :: (← parameters comma items)

end GroupItem

def checkParameterNames (params : List Pattern) : Reader Unit :=
  params.forM fun p => p.places.forM fun (place, name) => noteIf (isRestricted name) place.start

def groupParameters (items : List GroupItem) (comma : Option Nat) : Reader (List Pattern) := do
  let params ← GroupItem.parameters comma items
  checkParameterNames params
  return params

/-- The branches of a conditional expression whose question mark has been passed. -/
def branches (test : Term) : Reader Term := do
  discard <| within ({ · with noIn := false, inBranch := true, colonAhead := true })
    (g.parse .assignment)
  expect ":"
  discard <| within ({ · with inBranch := true, colonAhead := false }) (g.parse .assignment)
  return .plain (← spanFrom test.span.start) .conditional .other

/-- An expression within parentheses. Where type syntax is allowed, a question mark after one that
begins with a name may mark a parameter, and is left to be read. -/
def groupExpression : Reader ListItem := do
  let start ← here
  let isSpread ← atPunct "..."
  let first ← if isSpread then peek else token
  if !(← isTyped) || !first.isIdent then return ← listItem g
  if ← eat "..." then return .spread start (← g.parse .joined)
  return .plain (← g.parse (.assignmentTo (← g.parse .joined)))

def parameterMark (start : Nat) (item : ListItem) : Reader Unit := do
  let mark ← here
  let (term, isSpread) := match item with
    | .plain term => (term, false)
    | .spread _ term => (term, true)
  noteIf isSpread mark
  advance
  if term.name?.isNone then throw start

/-- A pattern whose type may be next; a parameter that is none has no type. -/
def typedParameter (start : Nat) (item : ListItem) : Reader Pattern := do
  let pattern ← match item with
    | .plain term => term.cover.pattern true
    | .spread _ term => do
      let target ← term.cover.pattern true
      pure (.rest (← spanFrom start) none target)
  let pattern ← match pattern with
    | .withDefault _ _ | .other _ => pure pattern
    | p => do
      let typeStop ← typeAfterColon? g
      pure (annotate typeStop p)
  if ← eat "=" then
    discard <| g.parse .assignment
    return .withDefault (← spanFrom start) pattern
  return pattern

def groupItem : Reader GroupItem := do
  let outer ← here
  within ({ · with arrowAt := some outer }) do
    let modified ← accessWord
    let start ← here
    let item ← groupExpression g
    let atMark ← do
      if (← isTyped) && (← atPunct "?") then
        pure ((← peek).isPunctOf [",", "=", ")", ":"])
      else pure false
    if atMark then parameterMark start item
    let item ← match item with
      | .plain term => do
        if atMark then pure item
        else if ← eatTyped "?" then pure (.plain (← branches g term))
        else pure item
      | _ => pure item
    let result ← do
      if atMark || ((← isTyped) && (← atPunct ":")) then
        pure (.parameter (← typedParameter g start item))
      else pure (.expression item)
    noteIf modified outer
    return result

/-- The items with an arrow function at their end, if an arrow is next. Its parameters are the items
so far if the first is a name. -/
def brokenArrow (start : Nat) (items : List GroupItem) : Reader (List GroupItem) := do
  unless ← eat "=>" do return items
  match items with
  | first :: _ =>
    if first.isName then
      let params ← groupParameters items none
      let arrow ← arrowTail g { start, isAsync := false, params, hasReturnType := false }
      return items ++ [.expression (.plain arrow)]
    return items
  | [] => return items

/-- The items within parentheses, which are passed; the offset of a comma that follows the last. -/
def groupItems : Reader (List GroupItem × Option Nat) := do
  let step (done : List GroupItem × Option Nat) :
      Reader (Option (List GroupItem × Option Nat)) := do
    if ← atPunct ")" then return none
    let start ← here
    let items ← brokenArrow g start (done.1 ++ [← groupItem g])
    if ← atPunct ")" then return some (items, none)
    let comma ← here
    expect ","
    return some (items, if ← atPunct ")" then some comma else none)
  expect "("
  let result ← iterate step ([], none)
  expect ")"
  return result

/-- An arrow function with a return type in a branch of a conditional expression, after its
parameters. It is one only if the colon of the conditional expression is still to come after it. -/
def branchArrow (head : ArrowHead) (items : List GroupItem) (comma : Option Nat) :
    Reader Term := do
  expect ":"
  bracketed (returnType g)
  expect "=>"
  let params ← groupParameters items comma
  let arrow ← arrowTail g { head with params, hasReturnType := true }
  if (← read).colonAhead then
    unless ← atPunct ":" do fail
  return arrow

/-- A return type with the arrow after it, which is left to be read; whether there is one. -/
def arrowReturnType? : Reader Bool := do
  if (← isTyped) && !(← read).colonAhead && (← atPunct ":") then
    let found ← trial do
      advance
      bracketed (returnType g)
      unless ← atPunct "=>" do fail
    return found.isSome
  return false

def binaryPunctuation : List String :=
  ["??", "||", "&&", "|", "^", "&", "==", "!=", "===", "!==", "<", ">", "<=", ">=", "<<", ">>",
   ">>>", "+", "-", "*", "/", "%", "**"]

/-- An arrow function after its parameters in parentheses. It is no operand, even if its body is a
block that an operator follows. -/
def groupArrow (head : ArrowHead) : Reader Term := do
  let isBlock ← atPunct "\x7b"
  let arrow ← arrowTail g head
  if !isBlock || !(← token).isPunctOf binaryPunctuation then return arrow
  note (← here)
  let whole ← g.parse (.operators arrow 0)
  unless (← token).endsStatement do note (← here)
  return whole

/-- An expression in parentheses that have been passed, or the call of a function named `async`. -/
def groupTerm (start : Nat) (isAsync : Bool) (items : List GroupItem) : Reader Term := do
  let terms := items.filterMap (·.term?)
  terms.forM fun (term, _) => term.cover.defaults.forM note
  let span ← spanFrom start
  if isAsync then return .plain span .primary .other
  if terms.isEmpty then throw start
  match terms.find? (·.2) with
  | some (term, _) => throw term.span.start
  | none =>
    match terms with
    | [(term, _)] => return term.wrap span (.group term.value) true
    | _ =>
      let sequence := Term.plain span .primary .other
      return sequence.wrap span (.group .other) true

/-- What begins with a parenthesis, before which the word `async` may stand. -/
def parenthesised (start : Nat) (isAsync : Bool) : Reader Term := do
  let (items, comma) ← bracketed (groupItems g)
  let head : ArrowHead := { start, isAsync, params := [], hasReturnType := false }
  if (← isTyped) && (← read).inBranch && (← atPunct ":") then
    if let some arrow ← trial (branchArrow g head items comma) then return arrow
  let hasReturnType ← arrowReturnType? g
  if hasReturnType || items.any (·.isParameter) || (← atPunct "=>") then
    if (← token).afterBreak || (← read).arrowAt != some start then throw start
    expect "=>"
    let params ← groupParameters items comma
    groupArrow g { head with params, hasReturnType }
  else groupTerm start isAsync items

def functionTerm (start : Nat) (isAsync : Bool) : Reader Term := do
  let (_, shape, hasBody) ← functionFrom g start isAsync false
  unless hasBody do fail
  return .plain (← spanFrom start) .primary (.function shape)

/-- The rest of an arrow function after the word `async`, which stands at `place`, with a parameter
that is next. In the head of a loop, the word `of` belongs to the loop. -/
def asyncNamed (place : Span) : Reader Term := do
  let context ← read
  let word := Term.ofName place "async"
  if context.inLoopHead && (← atWord "of") && !(← peek).isPunct "=>" then
    noteIf (!context.inAwaitedHead) place.start
    return word
  let (paramPlace, param) ← declaredName
  if context.typed && param == "as" && !(← atPunct "=>") then
    g.parse .typeExpression
    return word.wrap (← spanFrom place.start) (.asserted word.value) true
  expect "=>"
  namedArrow g place.start true paramPlace param

def nameTerm : Reader Term := do
  let t ← token
  if t.isWord "yield" && !(← isTyped) then fail
  let (place, name) ← identifier
  let canBeArrow := (← read).arrowAt == some t.start && !t.isWord "let"
  if !canBeArrow || (← token).afterBreak then return .ofName place name
  if t.isWord "async" && (← token).isIdent then asyncNamed g place
  else if ← eat "=>" then
    noteIf (isRestricted name) place.start
    namedArrow g place.start false place name
  else return .ofName place name

/-- What begins with the word `async`. -/
def asyncTerm (start : Nat) : Reader Term := do
  let next ← peek
  let canBeArrow := (← read).arrowAt == some start
  if next.isWord "function" && !next.afterBreak then
    advance
    functionTerm g start true
  else
    let generic ← do
      if canBeArrow && (← isTyped) && next.isPunct "<" then trial (genericAsyncArrow g)
      else pure none
    match generic with
    | some arrow => return arrow
    | none =>
      if canBeArrow && next.isPunct "(" then
        advance
        parenthesised g start true
      else nameTerm g

def wordTerm (t : Token) : Reader Term := do
  if t.isWordOf ["this", "null", "true", "false"] then
    advance
    return .plain ⟨t.start, t.stop⟩ .primary .other
  else if t.isWord "function" then functionTerm g t.start false
  else if t.isWord "async" then asyncTerm g t.start
  else if t.isWord "class" then
    discard <| classFrom g false false
    return .plain (← spanFrom t.start) .primary .other
  else nameTerm g

def primary : Reader Term := do
  let t ← token
  let span : Span := ⟨t.start, t.stop⟩
  match t.kind with
  | .number | .privateName _ =>
    advance
    return .plain span .primary .other
  | .string value =>
    advance
    return .plain span .primary ((value.map Value.text).getD .other)
  | .word _ _ => wordTerm g t
  | .punct "`" => templateLiteral g false
  | .punct "(" => parenthesised g t.start false
  | .punct "[" => arrayLiteral g
  | .punct "\x7b" => objectLiteral g
  | .punct "/" | .punct "/=" => regexLiteral
  | _ => fail

structure Reach where
  calls : Bool
  keys : Bool
  deriving DecidableEq, Repr, Inhabited

def memberName : Reader Unit := do
  match (← token).kind with
  | .word _ _ | .privateName _ => advance
  | _ => fail

def memberKey : Reader Unit := do
  expect "["
  discard <| bracketed (g.parse .expression)
  expect "]"

def arguments : Reader Unit := do
  expect "("
  discard <| bracketed (commaList ")" (listItem g))

/-- The words that begin an expression though they are no identifiers. -/
def expressionWords : List String :=
  ["await", "class", "delete", "false", "function", "import", "new", "null", "super", "this",
   "true", "typeof", "void", "yield"]

/-- The token begins an expression that may stand where type arguments may, too. -/
def beginsOperand (t : Token) : Bool :=
  match t.kind with
  | .number | .string _ | .privateName _ => true
  | .word _ _ => t.isIdent || t.isWordOf expressionWords
  | .punct p => ["(", "[", "`", "/", "/=", "+", "-", "!", "~", "++", "--", "<"].contains p
  | .invalid _ | .endOfText => false

/-- What is read as type arguments was not meant as comparisons if this token is next. -/
def followsTypes (t : Token) : Bool :=
  !t.isPunctOf ["<", "<<", ">", ">>", ">>>", "+", "-", "(", "`"]
    && (t.afterBreak || t.isPunctOf binaryPunctuation || !beginsOperand t)

/-- The expression with type arguments, if they are next and it is not called with them. -/
def instantiated (term : Term) : Reader Term := do
  if (← isTyped) && (← token).isPunctOf ["<", "<<"] then
    let found ← trial do
      typeArguments g
      unless followsTypes (← token) do fail
    if found.isSome then
      return { term.wrap (← spanFrom term.span.start) .other false with form := .instantiated }
  return term

def memberOf (object : Term) (inChain : Bool) : Reader Term := do
  let span ← spanFrom object.span.start
  if inChain then return .plain span .chain .other
  return .member span

def callOf (function : Term) (inChain : Bool) : Reader Term := do
  return .plain (← spanFrom function.span.start) (if inChain then .chain else .primary) .other

/-- A template whose text a function makes sense of. There is none where the function may be left
out. -/
def taggedTemplate (function : Term) : Reader Term := do
  discard <| templateLiteral g true
  noteIf (function.form == .chain) function.span.start
  callOf function false

/-- A call with type arguments, or type arguments at the end of the accesses; whether others may
follow. -/
def typedStep (reach : Reach) (object : Term) : Reader (Term × Bool) := do
  typeArguments g
  let next ← token
  if reach.calls && next.isPunct "(" then
    arguments g
    return (← callOf object (object.form == .chain), true)
  else if next.isPunct "`" then return (← taggedTemplate g object, true)
  else if next.isPunct "=" || next.isWordOf ["as", "satisfies"] then
    let span ← spanFrom object.span.start
    return ({ object.wrap span .other false with form := .instantiated }, false)
  else fail

/-- The access or call after `?.`, which is left out where there is no object. -/
def chainStep (reach : Reach) (object : Term) : Reader Term := do
  expect "?."
  if reach.keys && (← atPunct "[") then
    memberKey g
    instantiated g (← memberOf object true)
  else if (← atPunct "(") || ((← isTyped) && (← atPunct "<")) then
    if ← atPunct "<" then typeArguments g
    arguments g
    callOf object true
  else
    memberName
    instantiated g (← memberOf object true)

/-- The next access or call after an operand, if there is one; whether others may follow. -/
def accessStep (reach : Reach) (object : Term) : Reader (Option (Term × Bool)) := do
  let t ← token
  let typed ← isTyped
  if typed && t.isPunct "!" && !t.afterBreak then
    advance
    let span ← spanFrom object.span.start
    return some ({ object.wrap span .other false with inChain := object.inChain }, true)
  if typed && t.isPunct "<" then
    if let some result ← trial (typedStep g reach object) then return some result
  match t.kind with
  | .punct "?." => return some (← chainStep g reach object, true)
  | .punct "[" =>
    if !reach.keys then return none
    memberKey g
    return some (← instantiated g (← memberOf object object.inChain), true)
  | .punct "(" =>
    if !reach.calls then return none
    arguments g
    return some (← callOf object object.inChain, true)
  | .punct "." =>
    advance
    memberName
    return some (← instantiated g (← memberOf object object.inChain), true)
  | .punct "`" => return some (← taggedTemplate g object, true)
  | _ => return none

def accesses (reach : Reach) (object : Term) : Reader Term := do
  let step (state : Term × Bool) : Reader (Option (Term × Bool)) := do
    if state.2 then accessStep g reach state.1 else return none
  return (← iterate step (object, true)).1

/-- The accesses by name that follow `left`. -/
def qualified (left : Term) : Reader Term := accesses g ⟨false, false⟩ left

/-- Gives up at `start` unless inherited members can be asked for. -/
def requireSuper (start : Nat) : Reader Unit := do
  let context ← read
  unless context.typed || context.hasSuper do throw start

/-- What begins with the word `super`: a call, where calls are read, or an inherited member. -/
def superTerm (calls : Bool) : Reader Term := do
  let start ← here
  expectWord "super"
  let t ← token
  let word := Term.plain ⟨start, start⟩ .primary .other
  let first ← match t.kind with
    | .punct "(" => do
      unless calls do fail
      arguments g
      callOf word false
    | .punct "[" => do
      memberKey g
      requireSuper start
      instantiated g (← memberOf word false)
    | .punct "." => do
      advance
      let name ← token
      memberName
      requireSuper start
      match name.kind with
      | .privateName _ => fail
      | _ => instantiated g (← memberOf word false)
    | .punct "?." => throw start
    | .punct "!" => do
      if (← isTyped) && !t.afterBreak then advance
      fail
    | _ => fail
  accesses g ⟨calls, true⟩ first

/-- What begins with the word `import` within an expression: a call, where calls are read, or a word
after a dot. -/
def importTerm (calls : Bool) : Reader Term := do
  let start ← here
  expectWord "import"
  let isMeta ← do
    if ← eat "." then
      let word ← anyWord
      unless ["meta", "defer", "source"].contains word do fail
      pure (word == "meta")
    else pure false
  unless isMeta do
    unless calls do fail
    arguments g
  accesses g ⟨calls, true⟩ (.plain (← spanFrom start) .primary .other)

/-- What begins with the word `new`. It cannot be applied to what may be left out. -/
def newTerm : Reader Term := do
  let start ← here
  expectWord "new"
  if ← eat "." then
    expectWord "target"
    noteIf (!(← read).hasNewTarget) start
    accesses g ⟨false, true⟩ (.plain (← spanFrom start) .primary .other)
  else
    let callee ← g.parse .callee
    if callee.form == .arrow then return callee
    if callee.form == .chain then throw callee.span.start
    if (← isTyped) && (← token).isPunctOf ["<", "<<"] then
      discard <| trial do
        typeArguments g
        unless ← atPunct "(" do fail
    if ← atPunct "(" then
      arguments g
      accesses g ⟨false, true⟩ (.plain (← spanFrom start) .primary .other)
    else return .plain (← spanFrom start) .primary .other

/-- An operand with the accesses that follow it. Nothing follows an arrow function. -/
def callee : Reader Term := do
  let t ← token
  if t.isWord "new" then newTerm g
  else if t.isWord "super" then superTerm g false
  else if t.isWord "import" then importTerm g false
  else
    let first ← primary g
    if first.form == .arrow then return first
    accesses g ⟨false, true⟩ (← instantiated g first)

def access : Reader Term := do
  let t ← token
  if t.isWord "super" then superTerm g true
  else if t.isWord "import" then importTerm g true
  else
    let function ← callee g
    if function.form == .arrow then return function
    let hasTypes ← do
      if (← isTyped) && (← token).isPunctOf ["<", "<<"] then
        let found ← trial do
          typeArguments g
          unless ← atPunct "(" do fail
        pure found.isSome
      else pure false
    if hasTypes || (← atPunct "(") then
      arguments g
      accesses g ⟨true, true⟩ (← callOf function function.inChain)
    else return function

end TypedSvelte.Script.Grammar
