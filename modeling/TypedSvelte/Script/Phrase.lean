import TypedSvelte.Script.Cover

/-!
# Phrases

The grammar of scripts is recursive. Each rule of it is a reader of its own; where a rule comes back
to itself through others it asks for a `Phrase`, and is given the answer by the `Grammar` it is
handed. So the rules are plain definitions, and the recursion is tied in one place.
-/
namespace TypedSvelte.Script

/-- What an expression is on the outside. -/
inductive TermForm where
  /-- A name without parentheses. -/
  | name
  | member
  /-- An expression in parentheses or with a type. -/
  | wrapped
  /-- An expression with type arguments that is not called. -/
  | instantiated
  /-- A member or call that is left out where there is no object. -/
  | chain
  | primary
  | unary
  /-- An operand that is waited for. -/
  | awaited
  /-- An operand that is counted up or down. -/
  | stepped
  | binary (operator : String)
  | conditional
  | assignment
  | arrow
  deriving DecidableEq, Repr, Inhabited

structure Term where
  span : Span
  value : Value
  form : TermForm
  /-- A name or a member, in parentheses or with a type or not, to which values can be assigned. -/
  isSimple : Bool
  /-- It is a chain, or becomes one by another access. -/
  inChain : Bool
  cover : Cover
  deriving Repr, Inhabited

namespace Term

/-- An expression that is no target of assignments. -/
def plain (span : Span) (form : TermForm) (value : Value) : Term :=
  { span, value, form, isSimple := false, inChain := form == .chain, cover := .other span false }

def member (span : Span) : Term :=
  { span, value := .other, form := .member, isSimple := true, inChain := false
    cover := .other span true }

def ofName (place : Span) (text : String) : Term :=
  { span := place, value := .name text, form := .name, isSimple := !isRestricted text
    inChain := false, cover := .name place text }

/-- An expression with parentheses or a type around it, which can be assigned to like itself;
whether it can be a part of a pattern like itself, too. -/
def wrap (inner : Term) (span : Span) (value : Value) (inPatterns : Bool) : Term :=
  { span, value, form := .wrapped, isSimple := inner.isSimple, inChain := false
    cover := .other span (inner.isSimple && inPatterns) }

def name? (t : Term) : Option String :=
  match t.form, t.value with
  | .name, .name text => some text
  | _, _ => none

/-- Operators such as `+=` may have the expression on their left, though it may be at fault
there. -/
def isReference (t : Term) : Bool :=
  [.name, .member, .wrapped, .instantiated, .chain].contains t.form

def target (t : Term) : Reader Pattern := do
  match t.cover with
  | .array _ _ _ | .object _ _ _ => t.cover.pattern false
  | .name place text =>
    noteIf (!t.isSimple) place.start
    return .name place text none
  | _ =>
    noteIf (!t.isSimple) t.span.start
    return .other t.span

end Term

/-- A part of the grammar that others refer to, with the type of what it gives. -/
inductive Phrase : Type → Type 1 where
  | typeExpression : Phrase Unit
  /-- A type that is no conditional type. -/
  | unconditionalType : Phrase Unit
  /-- A name, an array pattern or an object pattern, without annotation or default. -/
  | binding : Phrase Pattern
  | assignment : Phrase Term
  /-- An expression, with what it assigns to `left` if an assignment operator is next. -/
  | assignmentTo (left : Term) : Phrase Term
  | expression : Phrase Term
  /-- Operands joined by binary operators. -/
  | joined : Phrase Term
  /-- The binary operators that follow `left` and bind more strongly than `above`. -/
  | operators (left : Term) (above : Nat) : Phrase Term
  /-- An object literal. -/
  | object : Phrase Term
  /-- An expression with its prefix operators. -/
  | unary : Phrase Term
  /-- An expression with the accesses and calls that follow it. -/
  | access : Phrase Term
  /-- An expression with the accesses that follow it. -/
  | callee : Phrase Term
  /-- The accesses by name that follow `left`. -/
  | qualified (left : Term) : Phrase Term
  /-- A statement; whether it stands in a list of statements. -/
  | statement (listed : Bool) : Phrase Statement
  | moduleItem : Phrase Item

structure Grammar where
  parse : {α : Type} → Phrase α → Reader α

/-- Runs a reader within brackets, where an expression ends at nothing but its bracket. -/
def bracketed {α : Type} (reader : Reader α) : Reader α :=
  within ({ · with noIn := false, colonAhead := false }) reader

/-- The words that are kept for what scripts may come to mean, or that mean something in some places
of strict text. A name spelled like one is at fault. -/
def unusableWords : List String :=
  ["enum", "implements", "interface", "let", "package", "private", "protected", "public", "static",
   "yield"]

/-- A word that is no reserved one. Types have a receiver named `this`, and what exists elsewhere may
be called `await`. -/
def unreservedWord : Reader (Span × String) := do
  let t ← token
  match t.kind with
  | .word name escaped =>
    let context ← read
    unless escaped do
      noteIf (unusableWords.contains name) t.start
      let admitted := (name == "this" && context.typed) || (name == "await" && context.ambient)
      if !admitted && (name == "await" || reservedWords.contains name) then fail
    noteIf (name == "arguments" && context.inField) t.start
    advance
    return (⟨t.start, t.stop⟩, name)
  | _ => fail

/-- An identifier that is no reserved word. -/
def identifier : Reader (Span × String) := do
  let found ← unreservedWord
  identify
  return found

def declaredName : Reader (Span × String) := do
  let (place, name) ← identifier
  noteIf (isRestricted name) place.start
  return (place, name)

/-- Gives up at the word `let`, which nothing declared for a block is called. -/
def refuseLet : Reader Unit := do
  if ← atWord "let" then fail

/-- An identifier that is declared, if one is next. -/
def declaredName? : Reader (Option String) := do
  if (← token).isIdent then return some (← declaredName).2
  return none

def anyWord : Reader String := do
  match (← token).word? with
  | some name =>
    advance
    return name
  | none => fail

def anyIdentifier : Reader String := do
  let name ← anyWord
  identify
  return name

structure PropertyKey where
  span : Span
  /-- The name, unless the key is a number or computed. -/
  name : Option String
  /-- The key is spelled as a word. -/
  isWord : Bool
  /-- The key is a name after `#`. -/
  isPrivate : Bool
  deriving Repr, Inhabited

def PropertyKey.ofToken (t : Token) (name : Option String) (isWord : Bool) : PropertyKey :=
  { span := ⟨t.start, t.stop⟩, name, isWord, isPrivate := false }

def propertyKey (g : Grammar) : Reader PropertyKey := do
  let t ← token
  match t.kind with
  | .word name _ =>
    advance
    return .ofToken t (some name) true
  | .string value =>
    advance
    return .ofToken t value false
  | .number =>
    advance
    return .ofToken t none false
  | _ =>
    expect "["
    let inner ← here
    bracketed do
      discard <| g.parse .assignment
      if (← isTyped) && (← atPunct ",") then
        repeatWhile do
          if ← eat "," then
            discard <| g.parse .assignment
            return true
          return false
        note inner
    expect "]"
    return { span := ← spanFrom t.start, name := none, isWord := false, isPrivate := false }

def PropertyKey.word? (key : PropertyKey) : Option String := if key.isWord then key.name else none

end TypedSvelte.Script
