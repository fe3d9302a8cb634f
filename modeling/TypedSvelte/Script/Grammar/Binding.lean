import TypedSvelte.Script.Phrase

/-!
# Patterns and parameters
-/
namespace TypedSvelte.Script.Grammar

variable (g : Grammar)

/-- A type annotation, if type syntax is allowed and one is next; where it ends. -/
def typeAfterColon? : Reader (Option Nat) := do
  if (← isTyped) && (← atPunct ":") then
    advance
    g.parse .typeExpression
    return some (← behind)
  return none

def annotate (typeStop : Option Nat) : Pattern → Pattern
  | .name place text _ => .name place text typeStop
  | .array place _ elements => .array place typeStop elements
  | .object place _ properties => .object place typeStop properties
  | .rest place _ target => .rest place typeStop target
  | .withDefault place target => .withDefault place target
  | .other place => .other place

/-- The default value of a pattern that begins at `start`, if an equals sign is next. -/
def defaulted (start : Nat) (target : Pattern) : Reader Pattern := do
  if ← eat "=" then
    discard <| bracketed (g.parse .assignment)
    return .withDefault (← spanFrom start) target
  return target

/-- A pattern with or without a default, which what exists elsewhere does not have. -/
def element : Reader Pattern := do
  let start ← here
  let p ← defaulted g start (← g.parse .binding)
  match p with
  | .withDefault _ _ => noteIf (← read).ambient start
  | _ => pure ()
  return p

/-- Passes a question mark after a pattern, which only what exists elsewhere has there. -/
def optionalPattern : Reader Unit := do
  if (← read).ambient then discard <| eat "?"

/-- The elements of an array pattern that are present, of which only the last may be a rest. -/
def arrayPattern : Reader Pattern := do
  let start ← here
  expect "["
  let step (done : List Pattern) : Reader (Option (List Pattern)) := do
    if ← atPunct "]" then return none
    if ← eat "," then return some done
    (done.find? (·.isRest)).forM fun p => note p.span.start
    let first ← here
    let isRest ← eat "..."
    let target ← if isRest then g.parse .binding else element g
    let place ← spanFrom first
    let p := if isRest then .rest place none target else target
    unless ← atPunct "]" do
      let comma ← here
      expect ","
      noteIf (isRest && (← atPunct "]")) comma
    return some (p :: done)
  let elements ← iterate step []
  expect "]"
  optionalPattern
  return .array (← spanFrom start) none elements.reverse

def propertyPattern : Reader Pattern := do
  let start ← here
  if ← eat "..." then
    let target ← g.parse .binding
    return .rest (← spanFrom start) none target
  let key ← propertyKey g
  if ← eat ":" then return ← element g
  match key.word? with
  | some name =>
    identify
    defaulted g start (.name key.span name none)
  | none => fail

/-- Notes what is wrong with the rests among the properties of an object pattern, of which only the
last may be one. It is a name without a comma. -/
def checkRests (comma : Option Nat) : List Pattern → Reader Unit
  | [] => return
  | [.rest place _ target] => if target.isName then comma.forM note else throw place.start
  | .rest place _ _ :: others => do
    note place.start
    checkRests comma others
  | _ :: others => checkRests comma others

def objectPattern : Reader Pattern := do
  let start ← here
  expect "\x7b"
  let (properties, comma) ← commaListEnd "\x7d" (propertyPattern g)
  checkRests comma properties
  optionalPattern
  return .object (← spanFrom start) none properties

def binding : Reader Pattern := do
  if ← atPunct "[" then arrayPattern g
  else if ← atPunct "\x7b" then objectPattern g
  else
    let (place, name) ← declaredName
    return .name place name none

/-- The words that may stand before a parameter of a constructor and tell who may use the property
it becomes. -/
def accessWords : List String := ["public", "protected", "private", "readonly"]

/-- Passes one of these words before a name or pattern; whether there is one. -/
def accessWord : Reader Bool := do
  let next ← peek
  let found := (← isTyped) && (← token).isWordOf accessWords
    && (next.word?.isSome || next.isPunctOf ["[", "\x7b"])
  if found then discard <| modifier? accessWords
  return found

def parameter : Reader Pattern := do
  let start ← here
  let modified ← accessWord
  let target ← g.parse .binding
  let isOptional ← eatTyped "?"
  let target := annotate (← typeAfterColon? g) target
  noteIf (isOptional && (← atPunct "=")) target.span.start
  let p ← defaulted g start target
  match p with
  | .withDefault _ _ => noteIf (← read).ambient start
  | _ => pure ()
  noteIf modified start
  return p

/-- A rest parameter after its dots, which are at `start`. It has no default value and is never
optional. -/
def restParameter (start : Nat) : Reader Pattern := do
  let target ← g.parse .binding
  if ← eat "=" then
    discard <| bracketed (g.parse .assignment)
    note target.span.start
  let typeStop ← typeAfterColon? g
  let p := Pattern.rest (← spanFrom start) typeStop target
  if ← isTyped then
    let mark ← here
    noteIf (← eat "?") mark
  return p

/-- Parameters up to the closing parenthesis, each read by `single` unless it begins with dots and
is read by `rest`. A rest parameter must be the last and has no comma after it. -/
def parameterList {α : Type} (single : Reader α) (rest : Nat → Reader α) : Reader (List α) := do
  let step (done : List α × Option Nat) : Reader (Option (List α × Option Nat)) := do
    if ← atPunct ")" then return none
    done.2.forM note
    let start ← here
    let isRest ← eat "..."
    let a ← if isRest then rest start else single
    unless ← atPunct ")" do
      let comma ← here
      expect ","
      noteIf (isRest && (← atPunct ")")) comma
    return some (a :: done.1, if isRest then some start else done.2)
  return (← iterate step ([], none)).1.reverse

def parameters : Reader (List Pattern) :=
  bracketed (parameterList (parameter g) (restParameter g))

end TypedSvelte.Script.Grammar
