import TypedSvelte.Script.Grammar.Callable

/-!
# Array and object literals, templates and regular expressions
-/
namespace TypedSvelte.Script.Grammar

variable (g : Grammar)

/-- An item of a list: an expression, or one that is spread by three dots. -/
inductive ListItem where
  | plain (term : Term)
  | spread (start : Nat) (term : Term)
  deriving Repr, Inhabited

/-- What is kept of the item in case that the list turns out to be a pattern. -/
def ListItem.cover : ListItem → Cover
  | plain term => term.cover
  | spread start term => .spread start term.cover

def listItem : Reader ListItem := do
  let start ← here
  if ← eat "..." then return .spread start (← g.parse .assignment)
  return .plain (← g.parse .assignment)

def arrayLiteral : Reader Term := do
  let start ← here
  expect "["
  let elements ← bracketed <| collect do
    if ← atPunct "]" then return none
    if ← eat "," then return some (.missing, none)
    let item ← listItem g
    if ← atPunct "]" then return some (item.cover, none)
    let comma ← here
    expect ","
    return some (item.cover, some comma)
  expect "]"
  let span ← spanFrom start
  let comma := elements.getLast?.bind (·.2)
  return { Term.plain span .primary .other with
    cover := .array span (elements.map (·.1)) comma }

structure Property where
  /-- Its key and value, if it has a name and a value of its own. -/
  entry : Option (String × Value)
  cover : Cover
  deriving Repr, Inhabited

/-- A property that is a function, from its parameters on; as a part of a pattern it is at fault at
`offset`. -/
def methodProperty (start offset : Nat) (marks : FunctionMarks) : Reader Property := do
  discard <| within ({ · with hasSuper := true }) (functionTail g start marks)
  return ⟨none, .method offset⟩

def markedProperty (start : Nat) (word : String) : Reader Property := do
  let isAsync := word == "async"
  let isGenerator ← if isAsync then eat "*" else pure false
  let key ← propertyKey g
  let rule : ParameterRule :=
    if isAsync then .free
    else if word == "get" then .getter key.span.start
    else .setter key.span.start
  methodProperty g start (if isAsync then key.span.start else start) ⟨isAsync, isGenerator, rule⟩

/-- A property whose value is the variable of its name; in a pattern it may have a default value. -/
def shorthandProperty (place : Span) (name : String) : Reader Property := do
  identify
  if ← eat "=" then
    discard <| g.parse .assignment
    return ⟨none, .shorthand place name (some (← behind))⟩
  return ⟨none, .shorthand place name none⟩

/-- The token may come after the key of a property where type syntax is allowed. -/
def followsKey (t : Token) (key : PropertyKey) : Bool :=
  match t.kind with
  | .word _ _ | .string _ | .number => true
  | .punct "\x7d" => key.isWord
  | .punct text => ["(", "[", ":", ",", "?", "=", "*", "<"].contains text
  | _ => false

/-- A property that has a key, from its key on; where it is told who may use it, if it is. -/
def keyedProperty (start : Nat) (access : Option Nat) : Reader Property := do
  let key ← propertyKey g
  let next ← token
  if (← isTyped) && !followsKey next key then
    note next.start
    return ⟨none, .other key.span false⟩
  if ← eat ":" then
    let e ← g.parse .assignment
    return ⟨key.name.map fun name => (name, e.value), e.cover⟩
  if ← atMethod then return ← methodProperty g start key.span.start .none
  let some name := key.word? | fail
  noteIf (← eat "?") next.start
  if (← token).isPunctOf ["=", ",", "\x7d"] then
    shorthandProperty g ⟨start, key.span.stop⟩ name
  else if ["async", "get", "set"].contains name then
    access.forM note
    markedProperty g start name
  else fail

def property : Reader Property := do
  let start ← here
  if ← eat "..." then return ⟨none, .spread start (← g.parse .assignment).cover⟩
  if ← eat "*" then
    let key ← propertyKey g
    return ← methodProperty g start key.span.start ⟨false, true, .free⟩
  let hasAccess ← accessWord
  keyedProperty g start (if hasAccess then some start else none)

def objectLiteral : Reader Term := do
  let start ← here
  expect "\x7b"
  let (properties, comma) ← bracketed (commaListEnd "\x7d" (property g))
  let span ← spanFrom start
  return { Term.plain span .primary (.object (properties.filterMap (·.entry))) with
    cover := .object span (properties.map (·.cover)) comma }

def templateLiteral (isTagged : Bool) : Reader Term := do
  let start ← here
  let content ← template isTagged (bracketed do discard <| g.parse .expression)
  let value := match content with
    | some chars => Value.text (String.ofList chars)
    | none => .other
  return .plain (← spanFrom start) .primary value

/-- Whether a character of a regular expression is followed by the inside of brackets. -/
def opensClass (inClass : Bool) (c : Char) : Bool := c == '[' || (inClass && c != ']')

/-- The number of characters of a regular expression after its opening slash, with the closing one.
A slash within brackets does not close it, and a backslash takes the next character with it. -/
def regexReach (inClass : Bool) : List Char → Option Nat
  | [] => none
  | [c] => if c == '/' && !inClass then some 1 else none
  | c :: d :: rest =>
    if isLineBreak c then none
    else if c == '\\' then
      if isLineBreak d then none else (regexReach inClass rest).map (· + 2)
    else if c == '/' && !inClass then some 1
    else (regexReach (opensClass inClass c) (d :: rest)).map (· + 1)

private theorem regexReach_ne_zero (inClass : Bool) (text : List Char) :
    regexReach inClass text ≠ some 0 := by
  fun_cases regexReach inClass text <;> simp

/-- A regular expression is recognised by its own characters. -/
theorem regexReach_take {inClass : Bool} {text : List Char} (second : List Char) {n : Nat}
    (closed : regexReach inClass text = some n) :
    regexReach inClass (text.take n ++ second) = some n := by
  have closing {inClass : Bool} {c : Char} (closes : (c == '/' && !inClass) = true)
      (rest : List Char) : regexReach inClass (c :: rest) = some 1 := by
    obtain ⟨isSlash, -⟩ := Bool.and_eq_true_iff.1 closes
    cases eq_of_beq isSlash
    cases rest with
    | nil => rw [regexReach, if_pos closes]
    | cons d rest => rw [regexReach, if_neg (by decide), if_neg (by decide), if_pos closes]
  fun_induction regexReach inClass text generalizing n with
  | case1 => cases closed
  | case2 inClass c closes =>
    cases closed
    exact closing closes second
  | case3 => cases closed
  | case4 => cases closed
  | case5 => cases closed
  | case6 inClass c d rest noBreak isSlash goesOn ih =>
    obtain ⟨m, found, rfl⟩ := Option.map_eq_some_iff.1 closed
    rw [List.take_succ_cons, List.take_succ_cons, List.cons_append, List.cons_append, regexReach,
      if_neg noBreak, if_pos isSlash, if_neg goesOn, ih found]
    rfl
  | case7 inClass c d rest noBreak notSlash closes =>
    cases closed
    exact closing closes second
  | case8 inClass c d rest noBreak notSlash goesOn ih =>
    obtain ⟨m, found, rfl⟩ := Option.map_eq_some_iff.1 closed
    have later := ih found
    cases m with
    | zero => exact (regexReach_ne_zero _ _ found).elim
    | succ m =>
      rw [List.take_succ_cons, List.cons_append] at later
      rw [List.take_succ_cons, List.take_succ_cons, List.cons_append, List.cons_append, regexReach,
        if_neg noBreak, if_neg notSlash, if_neg goesOn, later]
      rfl

/-- The characters that end a regular expression behind its closing slash. -/
def flagsAfter (length : Nat) (text : List Char) : List Char :=
  (text.drop (length + 1)).takeWhile isNamePart

/-- A regular expression is the same in every text that agrees with this one up to the character
behind its flags. -/
theorem regexAhead_append {w x y : List Char} {length : Nat}
    (found : regexReach false (w ++ x).tail = some length)
    (short : length + 1 + (flagsAfter length (w ++ x)).length < w.length) :
    regexReach false (w ++ y).tail = some length ∧
      flagsAfter length (w ++ y) = flagsAfter length (w ++ x) := by
  cases w with
  | nil => exact absurd short (Nat.not_lt_zero _)
  | cons c cs =>
    have inside : length ≤ cs.length := by
      rw [List.length_cons] at short
      omega
    constructor
    · have later := regexReach_take (cs.drop length ++ y) found
      rw [List.cons_append, List.tail_cons, List.take_append_of_le_length inside, ← List.append_assoc,
        List.take_append_drop] at later
      exact later
    · unfold flagsAfter at short ⊢
      rw [List.cons_append, List.drop_succ_cons, List.drop_append_of_le_length inside] at short ⊢
      rw [List.cons_append, List.drop_succ_cons, List.drop_append_of_le_length inside]
      refine takeWhile_append ?_
      rw [List.length_cons] at short
      rw [List.length_drop]
      omega

/-- The regular expression that begins with the next token: the number of its characters after the
opening slash, with the closing one, and its flags. -/
def regexAhead : Reader (Option (Nat × List Char)) :=
  .look
    (fun cursor =>
      (regexReach false cursor.text.tail).map fun length => (length, flagsAfter length cursor.text))
    (fun cursor limit =>
      cursor.isSettled limit && (regexReach false cursor.text.tail).any fun length =>
        let whole := length + 1 + (flagsAfter length cursor.text).length + 1
        decide (whole ≤ cursor.text.length) &&
          decide (cursor.token.start + byteSize (cursor.text.take whole) ≤ limit))
    fun {limit first second a b} alike settled => by
      obtain ⟨known, settled⟩ := Bool.and_eq_true_iff.1 settled
      obtain ⟨length, found, settled⟩ := (Option.any_eq_true ..).1 settled
      simp only [Bool.and_eq_true, decide_eq_true_eq] at settled
      have same := alike.take_text known settled.1 settled.2
      have size := List.length_take_of_le settled.1
      have here := List.take_append_drop (length + 1 + (flagsAfter length a.text).length + 1) a.text
      have there := List.take_append_drop (length + 1 + (flagsAfter length a.text).length + 1) b.text
      rw [same] at there
      rw [← here] at found
      obtain ⟨reach, flags⟩ := regexAhead_append (y := b.text.drop _) found (by
        rw [here, size]
        exact Nat.lt_succ_self _)
      rw [there] at reach flags
      rw [here] at found flags
      rw [reach, found, Option.map_some, Option.map_some, flags]

def validFlags (flags : List Char) : Bool :=
  flags.all ("dgimsuvy".toList.contains ·) && flags.eraseDups.length == flags.length

def regexLiteral : Reader Term := do
  let start ← here
  match ← regexAhead with
  | none => throw start
  | some (length, flags) =>
    noteIf (!validFlags flags) start
    pass (length + 1 + flags.length)
    return .plain (← spanFrom start) .primary .other

end TypedSvelte.Script.Grammar
