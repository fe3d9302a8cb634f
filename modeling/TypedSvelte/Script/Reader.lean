import TypedSvelte.Script.Agreement
import TypedSvelte.Script.Outline

/-!
# Reading tokens

A reader looks at one token at a time. It either gives a result or gives up at an offset; either way
it leaves behind how far it got and the faults noted on the way, so that a caller may go on after a
failure. `attempt` takes all of that back. Every reader carries two facts: it moves as cursors can be
moved, so it stays in the text; and what it does depends on no text behind a place that it does not
look behind.
-/
namespace TypedSvelte.Script

structure Context where
  /-- Type syntax is allowed. -/
  typed : Bool
  /-- Faults are not noted. -/
  quiet : Bool
  inFunction : Bool
  /-- In the parameters of a function. -/
  inParameters : Bool
  /-- What `new` was applied to is known: in classes and in functions other than arrow functions. -/
  hasNewTarget : Bool
  /-- The members that an object inherits can be asked for: in methods and classes. -/
  hasSuper : Bool
  /-- In the value of a field or in a static block, where there are no arguments. -/
  inField : Bool
  inAsync : Bool
  inGenerator : Bool
  /-- In a declaration of something that exists elsewhere. -/
  ambient : Bool
  /-- The operator `in` ends an expression. -/
  noIn : Bool
  /-- In a branch of a conditional expression. -/
  inBranch : Bool
  /-- A colon that belongs to a conditional expression is still to come. -/
  colonAhead : Bool
  /-- A type ends before `extends`. -/
  noConditionalType : Bool
  /-- In the head of a `for` loop. -/
  inLoopHead : Bool
  /-- In the head of a `for` loop that waits for each member. -/
  inAwaitedHead : Bool
  /-- There is a loop to go on with. -/
  inLoop : Bool
  /-- There is a statement to leave. -/
  canBreak : Bool
  labels : List String
  /-- The offset at which an arrow function may begin. -/
  arrowAt : Option Nat
  deriving Repr, Inhabited

/-- What comes of reading: a value, or the offset at which reading gave up. -/
inductive Result (α : Type) where
  | ok (value : α) (next : Cursor)
  | error (offset : Nat) (next : Cursor)

def Result.cursor {α : Type} : Result α → Cursor
  | ok _ next | error _ next => next

/-- The same came of reading in two texts that agree up to byte `limit`. -/
inductive Result.Alike {α : Type} (limit : Nat) (first second : List Char) :
    Result α → Result α → Prop
  | ok (value : α) {a b : Cursor} (alike : Cursor.Alike limit first second a b) :
      Alike limit first second (.ok value a) (.ok value b)
  | error (offset : Nat) {a b : Cursor} (alike : Cursor.Alike limit first second a b) :
      Alike limit first second (.error offset a) (.error offset b)

/-- A computation that reads tokens. It goes where cursors can be moved to, and `settled` tells
whether it looks at nothing behind a byte of the text: then the same comes of reading in a text that
differs behind that byte. -/
structure Reader (α : Type) where
  run : Context → Cursor → Result α
  settled : Context → Cursor → Nat → Bool
  leads : ∀ (context : Context) (cursor : Cursor), cursor.Leads (run context cursor).cursor
  agrees : ∀ {context : Context} {limit : Nat} {first second : List Char} {a b : Cursor},
    Cursor.Alike limit first second a b → settled context a limit = true →
      (run context a).Alike limit first second (run context b)

namespace Reader

variable {α β : Type}

def pure (a : α) : Reader α where
  run _ cursor := .ok a cursor
  settled _ _ _ := true
  leads _ _ := .refl
  agrees alike _ := .ok a alike

def bind (reader : Reader α) (next : α → Reader β) : Reader β where
  run context cursor :=
    match reader.run context cursor with
    | .ok a cursor => (next a).run context cursor
    | .error offset cursor => .error offset cursor
  settled context cursor limit :=
    reader.settled context cursor limit &&
      match reader.run context cursor with
      | .ok a cursor => (next a).settled context cursor limit
      | .error _ _ => true
  leads context cursor := by
    have first := reader.leads context cursor
    split
    · rename_i a behind read
      rw [read] at first
      exact first.trans ((next a).leads context behind)
    · rename_i offset behind read
      rw [read] at first
      exact first
  agrees {context _ _ _ a b} alike settled := by
    obtain ⟨here, later⟩ := Bool.and_eq_true_iff.1 settled
    have same := reader.agrees alike here
    generalize reader.run context a = x at same later ⊢
    generalize reader.run context b = y at same ⊢
    cases same with
    | ok value alike => exact (next value).agrees alike later
    | error offset alike => exact .error offset alike

def giveUp (offset : Nat) : Reader α where
  run _ cursor := .error offset cursor
  settled _ _ _ := true
  leads _ _ := .refl
  agrees alike _ := .error offset alike

def orElse (reader : Reader α) (next : Nat → Reader α) : Reader α where
  run context cursor :=
    match reader.run context cursor with
    | .ok a cursor => .ok a cursor
    | .error offset cursor => (next offset).run context cursor
  settled context cursor limit :=
    reader.settled context cursor limit &&
      match reader.run context cursor with
      | .ok _ _ => true
      | .error offset cursor => (next offset).settled context cursor limit
  leads context cursor := by
    have first := reader.leads context cursor
    split
    · rename_i a behind read
      rw [read] at first
      exact first
    · rename_i offset behind read
      rw [read] at first
      exact first.trans ((next offset).leads context behind)
  agrees {context _ _ _ a b} alike settled := by
    obtain ⟨here, later⟩ := Bool.and_eq_true_iff.1 settled
    have same := reader.agrees alike here
    generalize reader.run context a = x at same later ⊢
    generalize reader.run context b = y at same ⊢
    cases same with
    | ok value alike => exact .ok value alike
    | error offset alike => exact (next offset).agrees alike later

instance : Monad Reader where
  pure := Reader.pure
  bind := Reader.bind

instance : MonadExceptOf Nat Reader where
  throw := Reader.giveUp
  tryCatch := Reader.orElse

instance : MonadReaderOf Context Reader where
  read :=
    { run := fun context cursor => .ok context cursor
      settled := fun _ _ _ => true
      leads := fun _ _ => .refl
      agrees := fun alike _ => .ok _ alike }

/-- Looks at the text around the cursor, of which it is known by what comes before byte `limit` if it
is `known`. -/
def look (answer : Cursor → α) (known : Cursor → Nat → Bool)
    (agrees : ∀ {limit : Nat} {first second : List Char} {a b : Cursor},
      a.Alike limit first second b → known a limit = true → answer b = answer a) : Reader α where
  run _ cursor := .ok (answer cursor) cursor
  settled _ := known
  leads _ _ := .refl
  agrees alike settled := by
    rw [agrees alike settled]
    exact .ok _ alike

end Reader

/-- Where the cursor stands, with all of the text that follows. -/
def position : Reader Cursor := .look id (fun _ _ => false) fun _ settled => nomatch settled

def token : Reader Token := .look (·.token) Cursor.isSettled Cursor.Alike.token

def here : Reader Nat := return (← token).start

/-- Where the token read last ends. -/
def behind : Reader Nat := .look (·.previous) (fun _ _ => true) fun alike _ => alike.previous

def isTyped : Reader Bool := return (← read).typed

def fail {α : Type} : Reader α := do
  match (← token).kind with
  | .invalid offset => throw offset
  | _ => throw (← here)

/-- Notes a fault and goes on, unless faults are not noted. -/
def note (offset : Nat) : Reader Unit where
  run context cursor := .ok () (if context.quiet then cursor else cursor.note offset)
  settled context cursor limit := context.quiet || cursor.isSettled limit
  leads context cursor := by
    dsimp only [Result.cursor]
    split
    · exact .refl
    · exact Cursor.Leads.refl.note offset
  agrees {context _ _ _ _ _} alike settled := by
    refine .ok () ?_
    cases quiet : context.quiet with
    | true => exact alike
    | false =>
      rw [quiet, Bool.false_or] at settled
      exact alike.note settled offset

def noteIf (condition : Bool) (offset : Nat) : Reader Unit := do
  if condition then note offset

def identify : Reader Unit where
  run _ cursor := .ok () cursor.identify
  settled _ _ _ := true
  leads _ _ := Cursor.Leads.refl.identify
  agrees alike _ := .ok () alike.identify

/-- Passes the token to be read next, and `n` characters after it. -/
def skip (n : Nat) : Reader Unit where
  run context cursor := .ok () ((cursor.skip n).noteToken !context.quiet)
  settled _ cursor limit :=
    cursor.isSettled limit && decide (n ≤ cursor.rest.length) &&
      decide (cursor.token.stop + byteSize (cursor.rest.take n) ≤ limit)
  leads context cursor := (Cursor.Leads.refl.skip n).noteToken _
  agrees {context _ _ _ _ _} alike settled := by
    simp only [Bool.and_eq_true, decide_eq_true_eq] at settled
    exact .ok () (alike.skip settled.1.1 settled.1.2 settled.2 _)

/-- Passes `n` characters, those of the token to be read next among them. -/
def pass (n : Nat) : Reader Unit where
  run context cursor := .ok () ((cursor.pass n).noteToken !context.quiet)
  settled _ cursor limit :=
    cursor.isSettled limit && decide (n ≤ cursor.text.length) &&
      decide (cursor.token.start + byteSize (cursor.text.take n) ≤ limit)
  leads context cursor := (Cursor.Leads.refl.pass n).noteToken _
  agrees {context _ _ _ _ _} alike settled := by
    simp only [Bool.and_eq_true, decide_eq_true_eq] at settled
    exact .ok () (alike.pass settled.1.1 settled.1.2 settled.2 _)

def advance : Reader Unit := skip 0

/-- The token after the next one. -/
def peek : Reader Token :=
  .look (fun cursor => (lex true cursor.token.stop cursor.rest).token)
    (fun cursor limit =>
      let next := lex true cursor.token.stop cursor.rest
      cursor.isSettled limit && next.token.isSettled next.rest limit)
    fun alike settled => alike.peek (Bool.and_eq_true_iff.1 settled).1 (Bool.and_eq_true_iff.1 settled).2

def within {α : Type} (change : Context → Context) (reader : Reader α) : Reader α where
  run context := reader.run (change context)
  settled context := reader.settled (change context)
  leads context := reader.leads (change context)
  agrees := reader.agrees

def attempt {α : Type} (reader : Reader α) : Reader (Option α) where
  run context cursor :=
    match reader.run context cursor with
    | .ok a next => .ok (some a) next
    | .error _ _ => .ok none cursor
  settled := reader.settled
  leads context cursor := by
    have first := reader.leads context cursor
    split
    · rename_i a next read
      rw [read] at first
      exact first
    · exact .refl
  agrees {context _ _ _ a b} alike settled := by
    have same := reader.agrees alike settled
    generalize reader.run context a = x at same ⊢
    generalize reader.run context b = y at same ⊢
    cases same with
    | ok value alike => exact .ok (some value) alike
    | error => exact .ok none alike

/-- Runs a reader that notes no faults. If it gives up, nothing has been read. -/
def trial {α : Type} (reader : Reader α) : Reader (Option α) :=
  attempt (within ({ · with quiet := true }) reader)

/-- Runs a reader and takes back what it read; whether it gave the result `true`. -/
def lookahead (reader : Reader Bool) : Reader Bool where
  run context cursor :=
    match reader.run context cursor with
    | .ok answer _ => .ok answer cursor
    | .error _ _ => .ok false cursor
  settled := reader.settled
  leads context cursor := by
    split
    · exact .refl
    · exact .refl
  agrees {context _ _ _ a b} alike settled := by
    have same := reader.agrees alike settled
    generalize reader.run context a = x at same ⊢
    generalize reader.run context b = y at same ⊢
    cases same with
    | ok answer => exact .ok answer alike
    | error => exact .ok false alike

/-- Runs a reader. If it gives up, its failure is noted and reading goes on from there. -/
def recover {α : Type} (reader : Reader α) : Reader (Option α) :=
  tryCatch (some <$> reader) fun offset => do
    note offset
    return none

/-- Runs a reader. If it gives up, reading goes on from there as if nothing were wrong. -/
def disregard {α : Type} (reader : Reader α) : Reader Unit :=
  tryCatch (discard reader) fun _ => return

/-- Repeats a reader while it gives results, at most `limit` times. -/
def collectUpTo {α : Type} (step : Reader (Option α)) : Nat → Reader (List α)
  | 0 => return []
  | limit + 1 => do
    match ← step with
    | some a => return a :: (← collectUpTo step limit)
    | none => return []

/-- More than all repetitions and all phrases within one another that a text of less than `2 ^ 32`
bytes can have. -/
def plenty : Nat := Nat.pow 2 36

/-- Repeats a reader while it gives results. Each result must take a character of the text. -/
def collect {α : Type} (step : Reader (Option α)) : Reader (List α) := collectUpTo step plenty

/-- Repeats a reader while it answers `true`. Each such answer must take a character of the text. -/
def repeatWhile (step : Reader Bool) : Reader Unit := do
  discard <| collect do return if ← step then some () else none

/-- Applies a reader again and again while it gives results, at most `limit` times; the last one. -/
def iterateUpTo {α : Type} (step : α → Reader (Option α)) : Nat → α → Reader α
  | 0, a => return a
  | limit + 1, a => do
    match ← step a with
    | some next => iterateUpTo step limit next
    | none => return a

/-- Applies a reader again and again while it gives results; the last one. Each result must take a
character of the text. -/
def iterate {α : Type} (step : α → Reader (Option α)) (a : α) : Reader α :=
  iterateUpTo step plenty a

namespace Token

def isPunct (t : Token) (text : String) : Bool := t.kind == .punct text

/-- The token is this word. One that begins with an escape is none. -/
def isWord (t : Token) (name : String) : Bool := t.kind == .word name false

def isWordOf (t : Token) (names : List String) : Bool := names.any t.isWord

def isPunctOf (t : Token) (texts : List String) : Bool := texts.any t.isPunct

def word? (t : Token) : Option String :=
  match t.kind with
  | .word name _ => some name
  | _ => none

def isEnd (t : Token) : Bool := t.kind == .endOfText

def isIdent (t : Token) : Bool :=
  match t.kind with
  | .word name escaped => escaped || !isReserved true name
  | _ => false

def endsStatement (t : Token) : Bool :=
  t.isPunctOf [";", "\x7d"] || t.isEnd || t.afterBreak

def isModified (t : Token) : Bool :=
  !t.afterBreak && match t.kind with
    | .word _ _ | .privateName _ | .string _ | .number => true
    | .punct text => ["[", "\x7b", "*", "..."].contains text
    | .invalid _ | .endOfText => false

end Token

def atPunct (text : String) : Reader Bool := return (← token).isPunct text

def atWord (name : String) : Reader Bool := return (← token).isWord name

/-- Passes this punctuation if it is next; whether it was. -/
def eat (text : String) : Reader Bool := do
  if ← atPunct text then
    advance
    return true
  return false

/-- Passes this word if it is next; whether it was. -/
def eatWord (name : String) : Reader Bool := do
  if ← atWord name then
    advance
    return true
  return false

/-- Passes this punctuation if type syntax is allowed and it is next; whether it was. -/
def eatTyped (text : String) : Reader Bool := do
  if ← isTyped then eat text else return false

/-- Passes this word if type syntax is allowed and it is next; whether it was. -/
def eatTypedWord (name : String) : Reader Bool := do
  if ← isTyped then eatWord name else return false

def expect (text : String) : Reader Unit := do
  unless ← eat text do fail

def expectWord (name : String) : Reader Unit := do
  unless ← eatWord name do fail

/-- Takes the first character of the next token, which is punctuation, for the whole token. -/
def narrow : Reader Unit where
  run _ cursor := .ok () cursor.narrow
  settled _ := Cursor.isSettled
  leads _ _ := Cursor.Leads.refl.narrow
  agrees alike settled := .ok () (alike.narrow settled)

def atChar (c : Char) : Reader Bool := do
  match (← token).kind with
  | .punct text => return text.startsWith c
  | _ => return false

/-- Passes this character if the next token is punctuation that begins with it; whether it was. -/
def eatChar (c : Char) : Reader Bool := do
  if ← atChar c then
    narrow
    advance
    return true
  return false

def expectChar (c : Char) : Reader Unit := do
  unless ← eatChar c do fail

/-- A statement may end here: at a semicolon, which is passed, at a closing brace, at the end of the
text and after a line break. -/
def semicolon : Reader Bool := do
  if ← eat ";" then return true
  return (← token).endsStatement

def endStatement : Reader Unit := do
  unless ← semicolon do fail

/-- Passes one of these words if it modifies what follows; the word. -/
def modifier? (words : List String) : Reader (Option Token) := do
  let t ← token
  if t.isWordOf words && (← peek).isModified then
    advance
    return some t
  return none

/-- Items separated by commas up to a closing piece of punctuation, which is passed; the offset of a
comma that follows the last item. -/
def commaListEnd {α : Type} (close : String) (item : Reader α) :
    Reader (List α × Option Nat) := do
  let items ← collect do
    if ← atPunct close then return none
    let a ← item
    if ← atPunct close then return some (a, none)
    let comma ← here
    expect ","
    return some (a, some comma)
  expect close
  return (items.map (·.1), items.getLast?.bind (·.2))

/-- Items separated by commas up to a closing piece of punctuation, which is passed. A comma may
follow the last item. -/
def commaList {α : Type} (close : String) (item : Reader α) : Reader (List α) := do
  return (← commaListEnd close item).1

/-- Items separated by commas up to a closing angle bracket, which is passed. -/
def angleList {α : Type} (item : Reader α) : Reader (List α) := do
  let items ← collect do
    if ← atChar '>' then return none
    let a ← item
    unless ← atChar '>' do expect ","
    return some a
  expectChar '>'
  return items

def spanFrom (start : Nat) : Reader Span := return ⟨start, ← behind⟩

/-- What ends a piece of a template's text. -/
inductive ChunkEnd where
  | closed | substitution | unclosed
  deriving DecidableEq, Repr, Inhabited

/-- The number of characters of a piece of a template's text, and what ends it. A backslash takes
the next character with it. -/
def chunkReach : List Char → Nat × ChunkEnd
  | [] => (0, .unclosed)
  | [c] => if c == '`' then (0, .closed) else (1, .unclosed)
  | c :: d :: rest =>
    if c == '`' then (0, .closed)
    else if c == '$' && d == '{' then (0, .substitution)
    else if c == '\\' then
      let (n, chunkEnd) := chunkReach rest
      (n + 2, chunkEnd)
    else
      let (n, chunkEnd) := chunkReach (d :: rest)
      (n + 1, chunkEnd)

/-- The number of characters that end a piece of a template's text. -/
def ChunkEnd.marks : ChunkEnd → Nat
  | closed => 1
  | substitution => 2
  | unclosed => 0

/-- A piece of a template's text is recognised by its own characters and those that end it. -/
theorem chunkReach_take (second text : List Char) (ended : (chunkReach text).2 ≠ .unclosed) :
    chunkReach (text.take ((chunkReach text).1 + (chunkReach text).2.marks) ++ second) =
      chunkReach text := by
  have closing {c : Char} (isQuote : (c == '`') = true) (rest : List Char) :
      chunkReach (c :: rest) = (0, .closed) := by
    cases rest <;> rw [chunkReach, if_pos isQuote]
  fun_induction chunkReach text with
  | case1 => exact absurd rfl ended
  | case2 c isQuote => exact closing isQuote second
  | case3 c notQuote => exact absurd rfl ended
  | case4 c d rest isQuote => exact closing isQuote second
  | case5 c d rest notQuote opens =>
    change chunkReach (c :: d :: second) = _
    rw [chunkReach, if_neg notQuote, if_pos opens]
  | case6 c d rest notQuote notOpen isSlash n chunkEnd read ih =>
    rw [read] at ih
    rw [Nat.add_right_comm, List.take_succ_cons, List.take_succ_cons, List.cons_append,
      List.cons_append, chunkReach, if_neg notQuote, if_neg notOpen, if_pos isSlash, ih ended]
  | case7 c d rest notQuote notOpen notSlash n chunkEnd read ih =>
    rw [read] at ih
    have marked : n + chunkEnd.marks = n + (chunkEnd.marks - 1) + 1 := by
      cases chunkEnd with
      | unclosed => exact absurd rfl ended
      | closed | substitution => rfl
    have later := ih ended
    rw [marked, List.take_succ_cons, List.cons_append] at later
    rw [Nat.add_right_comm, List.take_succ_cons, marked, List.take_succ_cons, List.cons_append,
      List.cons_append, chunkReach, if_neg notQuote, if_neg notOpen, if_neg notSlash, later]

/-- The next piece of a template's text, after the next token; where it begins. -/
def chunkAhead : Reader (Nat × List Char × ChunkEnd) :=
  .look
    (fun cursor =>
      let (length, chunkEnd) := chunkReach cursor.rest
      (cursor.token.stop, cursor.rest.take length, chunkEnd))
    (fun cursor limit =>
      let (length, chunkEnd) := chunkReach cursor.rest
      let whole := length + chunkEnd.marks
      cursor.isSettled limit && chunkEnd != .unclosed && decide (whole ≤ cursor.rest.length) &&
        decide (cursor.token.stop + byteSize (cursor.rest.take whole) ≤ limit))
    fun {limit first second a b} alike settled => by
      simp only [Bool.and_eq_true, bne_iff_ne, decide_eq_true_eq] at settled
      obtain ⟨⟨⟨known, ended⟩, long⟩, inside⟩ := settled
      have same := alike.take_rest known long inside
      have reach := chunkReach_take
        (b.rest.drop ((chunkReach a.rest).1 + (chunkReach a.rest).2.marks)) a.rest ended
      rw [← same, List.take_append_drop] at reach
      rw [reach]
      have chars := congrArg (List.take (chunkReach a.rest).1) same
      simp only [List.take_take, Nat.le_add_right, Nat.min_eq_left] at chars
      dsimp only
      rw [alike.token known, chars]

/-- One piece of a template's text, from the text after the token read last; the substitution after
it, if there is one, has been passed up to its closing brace. A function before the template, its
tag, may make sense of any escape. -/
def chunk (opened : Nat) (isTagged : Bool) (substitution : Reader Unit) :
    Reader (List Char × ChunkEnd) := do
  let (start, chars, chunkEnd) ← chunkAhead
  unless isTagged do
    let bad (text : List Char) : Bool := isMalformedEscape text || isOctalEscape text
    if let some before := firstEscape? bad chars then throw (start + before)
  match chunkEnd with
  | .unclosed => throw opened
  | .closed => skip (chars.length + 1)
  | .substitution =>
    skip (chars.length + 2)
    substitution
    unless ← atPunct "\x7d" do fail
  return (chars, chunkEnd)

/-- A template, whose backquote is next; its text if it has no substitutions. -/
def template (isTagged : Bool) (substitution : Reader Unit) : Reader (Option (List Char)) := do
  let opened ← here
  let (first, chunkEnd) ← chunk opened isTagged substitution
  if chunkEnd == .closed then return some first
  repeatWhile do return (← chunk opened isTagged substitution).2 == .substitution
  return none

end TypedSvelte.Script
