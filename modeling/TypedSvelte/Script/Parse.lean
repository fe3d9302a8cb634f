import TypedSvelte.Script.Grammar.Exchange

/-!
# Reading scripts

The rules of the grammar are tied together here: `grammar depth` answers a phrase by its rule, which
asks `grammar (depth - 1)` for the phrases within. Between two steps inwards that pass no character
there are only a few others, so `plenty` is deep enough for every phrase of a text that offsets of 32
bits can count.
-/
namespace TypedSvelte.Script

def Grammar.rule (g : Grammar) {α : Type} : Phrase α → Reader α
  | .typeExpression => typeExpression g
  | .unconditionalType => unconditionalType g
  | .binding => binding g
  | .assignment => assignment g
  | .assignmentTo left => assignmentTo g left
  | .expression => expression g
  | .joined => joined g
  | .operators left above => operators g left above
  | .object => objectLiteral g
  | .unary => unary g
  | .access => access g
  | .callee => callee g
  | .qualified left => qualified g left
  | .statement listed => statement g listed
  | .moduleItem => moduleItem g

/-- The grammar for phrases that are nested no deeper than `depth`. -/
def grammar : Nat → Grammar
  | 0 => ⟨fun _ => fail⟩
  | depth + 1 => ⟨fun phrase => (grammar depth).rule phrase⟩

def Context.top (typed : Bool) : Context :=
  { typed, quiet := false, inFunction := false, inParameters := false, hasNewTarget := false
    hasSuper := false, inField := false, inAsync := false, inGenerator := false, ambient := false
    noIn := false, inBranch := false, colonAhead := false, noConditionalType := false
    inLoopHead := false, inAwaitedHead := false, inLoop := false, canBreak := false, labels := []
    arrowAt := none }

def withoutMark (text : List Char) : List Char :=
  match text with
  | '\uFEFF' :: rest => rest
  | text => text

/-- The script begins with a line for those who run it. -/
def isMarkedToRun (text : List Char) : Bool := ['#', '!'].isPrefixOf text

/-- The cursor at the first token of a script. A first line that begins with `#!` is passed, and the
token after it is strict like all others but the first. -/
def Cursor.first (text : List Char) : Cursor :=
  if isMarkedToRun text then
    let line := text.takeWhile (!isLineBreak ·)
    .start true (byteSize line) (text.drop line.length)
  else .start false 0 text

/-- Reads items up to the end of the text, of which there are at most `limit`. Each is read in a text
of its own, which begins with it, and then put into its place. The first token of the first one may
be strict, those of the others are. -/
def readItems (g : Grammar) (context : Context) : Nat → Bool → Cursor → Result (List Item)
  | 0, _, cursor => .error cursor.token.start cursor
  | limit + 1, strict, cursor =>
    if cursor.token.isEnd then .ok [] cursor
    else match cursor.token.kind with
      | .invalid fault => .error fault cursor
      | _ =>
        let start := cursor.token.start
        match g.moduleItem.run context (.standing strict cursor.text) with
        | .error fault next => .error (fault + start) (next.rejoin cursor)
        | .ok item next =>
          match readItems g context limit true (next.rejoin cursor) with
          | .error fault last => .error fault last
          | .ok later last => .ok (item.shift start :: later) last

/-- A script that has been read to its end. -/
structure Reading where
  outline : Outline
  /-- The offsets of the faults noted on the way, in order. -/
  faults : List Nat
  deriving Repr, Inhabited

/-- Reads a script; the offset at which reading gives up, if it does. Offsets count from the first
character that is no byte order mark. -/
def readText (typed : Bool) (source : String) : Except Nat Reading :=
  let text := withoutMark source.toList
  let first := Cursor.first text
  let limit := first.text.length + 1
  match readItems (grammar plenty) (.top typed) limit (isMarkedToRun text) first with
  | .ok items cursor => .ok ⟨⟨items, cursor.identifiers.reverse⟩, cursor.faults.reverse⟩
  | .error offset _ => .error offset

/-- Why a script is not accepted. -/
structure ScriptError where
  offset : Nat
  deriving DecidableEq, Repr, Inhabited

def parse (typed : Bool) (source : String) : Except ScriptError Outline :=
  match readText typed source with
  | .error offset => .error ⟨offset⟩
  | .ok reading =>
    match reading.faults with
    | [] => .ok reading.outline
    | offset :: _ => .error ⟨offset⟩

end TypedSvelte.Script
