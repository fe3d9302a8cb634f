import TypedSvelte.Script.Reader

/-!
# Expressions that turn out to be patterns

Whether an array, an object or a list in parentheses is a value, is assigned to or declares the
parameters of a function is known only from what comes after it. So it is read as an expression, and
its `Cover` keeps what a pattern in its place needs. `Cover.pattern` takes it for one and notes what
a pattern cannot have.
-/
namespace TypedSvelte.Script

/-- The names that are not assigned to and not declared. -/
def isRestricted (name : String) : Bool := name == "eval" || name == "arguments"

/-- What is kept of an expression, or of a part of an array or object literal, in case it turns out
to be a pattern. -/
inductive Cover where
  | name (place : Span) (text : String)
  /-- An array with the offset of the comma after its last element. -/
  | array (place : Span) (elements : List Cover) (comma : Option Nat)
  /-- An object with the offset of the comma after its last property. Properties with a key of their
  own are given by their values. -/
  | object (place : Span) (properties : List Cover) (comma : Option Nat)
  /-- What a value is assigned to by an equals sign. -/
  | assigned (place : Span) (target : Cover)
  /-- A pattern that has been read as such. -/
  | settled (pattern : Pattern)
  /-- Any other expression; whether it can be a part of a pattern that is assigned to. -/
  | other (place : Span) (isTarget : Bool)
  /-- An element left out. -/
  | missing
  /-- What three dots spread. -/
  | spread (start : Nat) (target : Cover)
  /-- A property that is a name only; where its default value ends, if it has one. -/
  | shorthand (place : Span) (text : String) (defaultStop : Option Nat)
  /-- A property that is a function, by the offset of its fault. -/
  | method (start : Nat)
  deriving Repr, Inhabited

namespace Cover

def isName : Cover → Bool
  | name _ _ => true
  | _ => false

def isAssigned : Cover → Bool
  | assigned _ _ => true
  | _ => false

mutual

/-- Takes an expression for a part of a pattern, which declares names or is assigned to. -/
def pattern (declares : Bool) : Cover → Reader Pattern
  | .name place text => do
    noteIf (!declares && isRestricted text) place.start
    return .name place text none
  | .array place parts comma => return .array place none (← elements declares comma parts)
  | .object place parts comma => return .object place none (← properties declares comma parts)
  | .assigned place target => return .withDefault place (← pattern declares target)
  | .settled p => return p
  | .other place isTarget => do
    noteIf (declares || !isTarget) place.start
    return .other place
  | .shorthand place text none => return .name place text none
  | .shorthand place text (some stop) =>
    return .withDefault ⟨place.start, stop⟩ (.name place text none)
  | .spread _ target => pattern declares target
  | .method start => throw start
  | .missing => return .other (.empty 0)

/-- Takes the elements of an array for those of a pattern. Only the last may be spread, with neither
a default value nor a comma after it. -/
def elements (declares : Bool) (comma : Option Nat) : List Cover → Reader (List Pattern)
  | [] => return []
  | [.spread start target] => do
    noteIf target.isAssigned start
    comma.forM note
    let p ← pattern declares target
    return [.rest p.span none p]
  | .spread start _ :: parts => do
    note start
    elements declares comma parts
  | .missing :: parts => elements declares comma parts
  | part :: parts => do
    let p ← pattern declares part
    return p :: (← elements declares comma parts)

/-- Takes the properties of an object for those of a pattern. Only the last may be spread, without a
comma after it and without a default value; where names are declared it is one. -/
def properties (declares : Bool) (comma : Option Nat) : List Cover → Reader (List Pattern)
  | [] => return []
  | .spread start target :: parts => do
    if parts.isEmpty then comma.forM note else note start
    noteIf ((declares && !target.isName) || target.isAssigned) start
    let p ← pattern declares target
    return .rest p.span none p :: (← properties declares comma parts)
  | part :: parts => do
    let p ← pattern declares part
    return p :: (← properties declares comma parts)

end

/-- The offsets of the properties that are names with a default value, which only patterns have. -/
def defaults : Cover → List Nat
  | object _ parts _ => parts.filterMap fun
    | shorthand place _ (some _) => some place.start
    | _ => none
  | _ => []

end Cover

end TypedSvelte.Script
