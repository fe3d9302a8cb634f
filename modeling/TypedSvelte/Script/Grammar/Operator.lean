import TypedSvelte.Script.Grammar.Operand

/-!
# Operators

Binary operators are read by precedence: `operators left above` takes to `left` all that binds more
strongly than `above`. An arrow function is never an operand.
-/
namespace TypedSvelte.Script.Grammar

variable (g : Grammar)

def precedence? (operator : String) : Option Nat :=
  match operator with
  | "??" | "||" => some 1
  | "&&" => some 2
  | "|" => some 3
  | "^" => some 4
  | "&" => some 5
  | "==" | "!=" | "===" | "!==" => some 6
  | "<" | ">" | "<=" | ">=" | "instanceof" | "in" => some 7
  | "<<" | ">>" | ">>>" => some 8
  | "+" | "-" => some 9
  | "*" | "/" | "%" => some 10
  | "**" => some 11
  | _ => none

def binaryOperator? : Reader (Option String) := do
  match (← token).kind with
  | .punct text => return some text
  | .word "instanceof" false => return some "instanceof"
  | .word "in" false => return if (← read).noIn then none else some "in"
  | _ => return none

def assignmentOperators : List String :=
  ["=", "+=", "-=", "*=", "/=", "%=", "**=", "<<=", ">>=", ">>>=", "&=", "|=", "^=", "&&=", "||=",
   "??="]

def typeAssertion : Reader Term := do
  let start ← here
  expectChar '<'
  let isConst ← eatWord "const"
  unless isConst do bracketed (g.parse .typeExpression)
  expectChar '>'
  let operand ← g.parse .unary
  let span ← spanFrom start
  if isConst then return .plain span .primary .assertedConst
  return operand.wrap span .other false

/-- An operand that is waited for, after the word `await`, which is at `start`. The word alone is a
name outside of asynchronous functions, but none that modules admit. -/
def awaitedFrom (start : Nat) : Reader Term := do
  if ← atPunct "*" then fail
  let context ← read
  let word ← spanFrom start
  if !context.inAsync && (← token).isPunctOf [")", "]"] then
    note start
    return .ofName word "await"
  noteIf (!context.inAsync && context.inFunction) start
  noteIf (context.inParameters && !context.inFunction) start
  discard <| g.parse .unary
  return .plain (← spanFrom start) .awaited .other

def awaited : Reader Term := do
  let start ← here
  expectWord "await"
  awaitedFrom g start

def stepped : Reader Term := do
  let start ← here
  advance
  let operand ← g.parse .unary
  noteIf (!operand.isSimple) operand.span.start
  return .plain (← spanFrom start) .stepped .other

/-- An operand behind a prefix operator. What goes wrong in the operand is noted only, and so is the
removal of a name. -/
def prefixed (operator : Token) : Reader Term := do
  advance
  if let some operand ← recover (g.parse .unary) then
    noteIf (operator.isWord "delete" && operand.form == .name) operand.span.start
  return .plain (← spanFrom operator.start) .unary .other

/-- An operand with the operators that count it up or down after its value is taken. -/
def postfixed : Reader Term := do
  let operand ← g.parse .access
  let next ← token
  if operand.form == .arrow || next.afterBreak || !next.isPunctOf ["++", "--"] then return operand
  noteIf (!operand.isSimple) operand.span.start
  advance
  return .plain (← spanFrom operand.span.start) .stepped .other

def unary : Reader Term := do
  let t ← token
  if (← isTyped) && t.isPunct "<" then typeAssertion g
  else if t.isPunctOf ["++", "--"] then stepped g
  else if t.isPunctOf ["+", "-", "~", "!"] || t.isWordOf ["delete", "typeof", "void"] then
    prefixed g t
  else if t.isWord "await" then awaited g
  else postfixed g

/-- The operand is joined by an operator that needs parentheses beside `operator`. -/
def clash (operator : String) (operand : Term) : Bool :=
  match operand.form with
  | .binary inner =>
    (operator == "??" && (inner == "||" || inner == "&&"))
      || ((operator == "||" || operator == "&&") && inner == "??")
  | _ => false

/-- A type that is asserted of `left`, from the word that does so on. -/
def assertedType (left : Term) : Reader Term := do
  let start := left.span.start
  if (← atWord "as") && (← peek).isWord "const" then
    advance
    advance
    return .plain (← spanFrom start) .primary .assertedConst
  let isCheck ← atWord "satisfies"
  advance
  g.parse .typeExpression
  let value := if isCheck then Value.satisfying left.value else .asserted left.value
  return left.wrap (← spanFrom start) value (!isCheck)

/-- The binary operators that follow `left` and bind more strongly than `above`. -/
def operators (left : Term) (above : Nat) : Reader Term := do
  let t ← token
  if (← isTyped) && !t.afterBreak && above < 7 && t.isWordOf ["as", "satisfies"] then
    g.parse (.operators (← assertedType g left) above)
  else
    let some operator ← binaryOperator? | return left
    let some strength := precedence? operator | return left
    if strength ≤ above then return left
    advance
    if operator == "**" && (left.form == .unary || left.form == .awaited) then fail
    let first ← g.parse .unary
    let right ← g.parse (.operators first (if operator == "**" then strength - 1 else strength))
    noteIf (clash operator left) left.span.start
    noteIf (operator == "??" && clash operator right) right.span.start
    let whole := Term.plain (← spanFrom left.span.start) (.binary operator) .other
    g.parse (.operators whole above)

/-- The first operand of binary operators. One that is missing before an operator is noted only. -/
def firstOperand : Reader Term :=
  tryCatch (g.parse .unary) fun offset => do
    let operator ← binaryOperator?
    if (operator.bind precedence?).isSome then
      note (← here)
      return .plain (.empty offset) .primary .other
    throw offset

def joined : Reader Term := do
  let first ← firstOperand g
  if first.form == .arrow then return first
  g.parse (.operators first 0)

def conditional : Reader Term := do
  let test ← joined g
  if test.form == .arrow then return test
  if ← eat "?" then branches g test else return test

/-- What a generator hands out. It does so in its body only. -/
def yielded : Reader Term := do
  let start ← here
  let context ← read
  expectWord "yield"
  if context.inParameters && !context.inFunction then throw start
  let next ← token
  unless next.endsStatement do
    if ← eat "*" then discard <| g.parse .assignment
    else if beginsOperand next || next.isPunct "\x7b" then
      unless next matches { kind := .privateName _, .. } do discard <| g.parse .assignment
  return .plain (← spanFrom start) .assignment .other

/-- An expression, with what it assigns to `left` if an assignment operator is next. -/
def assignmentTo (left : Term) : Reader Term := do
  let t ← token
  if !t.isPunctOf assignmentOperators then return left
  let start := left.span.start
  let isPlain := t.isPunct "="
  let cover ← do
    if isPlain then
      let target ← left.target
      pure <| match left.cover with
        | .array _ _ _ | .object _ _ _ => Cover.settled target
        | cover => cover
    else
      noteIf (!left.isSimple) start
      pure left.cover
  let isPattern := match left.cover with
    | .array _ _ _ | .object _ _ _ => isPlain
    | _ => false
  unless isPattern || left.isReference do throw start
  advance
  discard <| g.parse .assignment
  let span ← spanFrom start
  if isPlain then
    return { Term.plain span .assignment (.assignment left.value) with
      cover := .assigned span cover }
  return .plain span .assignment .other

/-- An assignment or an expression that is none. -/
def assigned : Reader Term := do
  let left ← conditional g
  match left.form with
  | .arrow | .conditional | .binary _ | .unary | .stepped => return left
  | _ => assignmentTo g left

/-- An expression without commas outside of its brackets and without type parameters in front. -/
def plainAssignment : Reader Term := do
  let t ← token
  if (← read).inGenerator && t.isWord "yield" then yielded g
  else
    let opens := t.isPunct "(" || t.isWord "yield" || t.isIdent
    within ({ · with arrowAt := if opens then some t.start else none }) (assigned g)

def genericArrow : Reader Term := do
  let start ← here
  typeParameters g .ofFunction
  let arrow ← plainAssignment g
  unless arrow.form == .arrow do fail
  return restart start arrow

def assignment : Reader Term := do
  if (← isTyped) && (← atPunct "<") && (← peek).word?.isSome then
    let found ← trial (within ({ · with colonAhead := false }) (genericArrow g))
    if let some arrow := found then return arrow
  plainAssignment g

def expression : Reader Term := do
  let first ← g.parse .assignment
  if !(← atPunct ",") then return first
  repeatWhile do
    if ← eat "," then
      discard <| g.parse .assignment
      return true
    return false
  return .plain (← spanFrom first.span.start) .primary .other

end TypedSvelte.Script.Grammar
