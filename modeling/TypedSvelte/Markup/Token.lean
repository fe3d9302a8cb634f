import TypedSvelte.Position.Span
import TypedSvelte.Text.Blank

/-!
# Tokens of embedded expressions

Markup never interprets the expressions embedded in it. It only has to know where one ends, where
words such as `as` or `then` stand outside of brackets, and which identifiers occur. So strings,
template literals and comments are single tokens, and every punctuation character is one of its own.

Each token is recognised at its first character by `lexeme`, which looks at nothing before it; white
space and malformed pieces give no token. A malformed piece is a string that its line ends, a
string, template or block comment that the text ends, or a character that begins no token.
-/
namespace TypedSvelte.Markup

inductive Bracket where
  | brace | paren | square
  deriving DecidableEq, Repr, Inhabited

inductive TokenKind where
  | ident
  | number
  | string
  | template
  | comment
  | opening (bracket : Bracket)
  | closing (bracket : Bracket)
  | comma
  | punct
  deriving DecidableEq, Repr, Inhabited

/-- A token and its place in the text it was read from. -/
structure Token where
  kind : TokenKind
  /-- The byte offset of the first character. -/
  start : Nat
  chars : List Char
  deriving DecidableEq, Repr, Inhabited

namespace Token

def stop (t : Token) : Nat := t.start + byteSize t.chars

def span (t : Token) : Span := ⟨t.start, t.stop⟩

def text (t : Token) : String := String.ofList t.chars

/-- The token is the identifier `word`. -/
def isWord (t : Token) (word : String) : Bool := t.kind == .ident && t.text == word

end Token

def isSpace (c : Char) : Bool :=
  c == ' ' || c == '\t' || c == '\r' || c == '\n' || c == '\x0c'

def isIdentStart (c : Char) : Bool := c.isAlpha || c == '_' || c == '$'

def isIdentChar (c : Char) : Bool := c.isAlphanum || c == '_' || c == '$'

def isNumberChar (c : Char) : Bool := c.isAlphanum || c == '_' || c == '.'

/-- The characters that are tokens of their own without being brackets or commas. -/
def isPunct (c : Char) : Bool := "-=<>!+*/%&|^~?:;.@#".toList.contains c

/-- How far a piece reaches beyond its opening, in characters, and whether it is well formed. -/
structure Reach where
  length : Nat
  complete : Bool
  deriving DecidableEq, Repr, Inhabited

/-- The same piece with `n` more characters in front. -/
def Reach.add (n : Nat) (r : Reach) : Reach := { r with length := r.length + n }

/-- A string after its opening quote: up to the same quote, to be refused at the end of its line. A
backslash takes the next character with it. -/
def quotedReach (quote : Char) : List Char → Reach
  | [] => ⟨0, false⟩
  | [c] => if c == '\n' then ⟨0, false⟩ else ⟨1, c == quote⟩
  | c :: d :: rest =>
    if c == '\\' then (quotedReach quote rest).add 2
    else if c == '\n' then ⟨0, false⟩
    else if c == quote then ⟨1, true⟩
    else (quotedReach quote (d :: rest)).add 1

/-- A template literal after its opening backquote, `depth` braces of substitutions being open: up
to the first backquote outside of them. A backslash takes the next character with it. -/
def templateReach (depth : Nat) : List Char → Reach
  | [] => ⟨0, false⟩
  | [c] => ⟨1, c == '`' && depth == 0⟩
  | c :: d :: rest =>
    if c == '\\' then (templateReach depth rest).add 2
    else if c == '`' && depth == 0 then ⟨1, true⟩
    else if c == '$' && d == '{' then (templateReach (depth + 1) rest).add 2
    else if c == '{' && depth != 0 then (templateReach (depth + 1) (d :: rest)).add 1
    else if c == '}' && depth != 0 then (templateReach (depth - 1) (d :: rest)).add 1
    else (templateReach depth (d :: rest)).add 1

/-- A block comment after its opening: up to the first `*/`. -/
def blockCommentReach (text : List Char) : Reach :=
  match findText? ['*', '/'] text with
  | some before => ⟨before + 2, true⟩
  | none => ⟨text.length, false⟩

/-- The piece that begins with `c`: its class, unless it is white space or malformed, and the number
of characters of `rest` that belong to it. -/
def lexeme (c : Char) (rest : List Char) : Option TokenKind × Nat :=
  let piece (kind : TokenKind) (r : Reach) : Option TokenKind × Nat :=
    (if r.complete then some kind else none, r.length)
  if isSpace c then (none, 0)
  else if isIdentStart c then (some .ident, (rest.takeWhile isIdentChar).length)
  else if c.isDigit then (some .number, (rest.takeWhile isNumberChar).length)
  else if c == '"' || c == '\'' then piece .string (quotedReach c rest)
  else if c == '`' then piece .template (templateReach 0 rest)
  else if c == '/' && rest.head? == some '/' then
    (some .comment, 1 + (rest.tail.takeWhile (· != '\n')).length)
  else if c == '/' && rest.head? == some '*' then
    piece .comment ((blockCommentReach rest.tail).add 1)
  else if c == '{' then (some (.opening .brace), 0)
  else if c == '}' then (some (.closing .brace), 0)
  else if c == '(' then (some (.opening .paren), 0)
  else if c == ')' then (some (.closing .paren), 0)
  else if c == '[' then (some (.opening .square), 0)
  else if c == ']' then (some (.closing .square), 0)
  else if c == ',' then (some .comma, 0)
  else if isPunct c then (some .punct, 0)
  else (none, 0)

/-- The well-formed tokens of a text that begins at byte `offset`. -/
def tokensFrom (offset : Nat) : List Char → List Token
  | [] => []
  | c :: rest =>
    let (kind?, length) := lexeme c rest
    let chars := c :: rest.take length
    let later := tokensFrom (offset + byteSize chars) (rest.drop length)
    match kind? with
    | some kind => ⟨kind, offset, chars⟩ :: later
    | none => later
  termination_by text => text.length
  decreasing_by simp only [List.length_drop, List.length_cons]; omega

def tokens (text : List Char) : List Token := tokensFrom 0 text

/-- The tokens outside of all brackets, `depth` brackets being open. The brackets of an outermost
group count as outside, and a closing bracket that matches nothing leaves the depth at zero. -/
def outermost (depth : Nat) : List Token → List Token
  | [] => []
  | t :: rest =>
    match t.kind with
    | .opening _ =>
      if depth == 0 then t :: outermost (depth + 1) rest else outermost (depth + 1) rest
    | .closing _ =>
      if depth - 1 == 0 then t :: outermost (depth - 1) rest else outermost (depth - 1) rest
    | _ => if depth == 0 then t :: outermost depth rest else outermost depth rest

def topLevelTokens (text : List Char) : List Token := outermost 0 (tokens text)

/-- The number of characters before the brace that closes `depth` open braces and the one before
the text. -/
def closingBraceFrom (depth : Nat) : List Char → Option Nat
  | [] => none
  | c :: rest =>
    let (kind?, length) := lexeme c rest
    let next (depth : Nat) : Option Nat :=
      (closingBraceFrom depth (rest.drop length)).map (· + (length + 1))
    match kind?, depth with
    | some (.opening .brace), depth => next (depth + 1)
    | some (.closing .brace), 0 => some 0
    | some (.closing .brace), depth + 1 => next depth
    | _, depth => next depth
  termination_by text => text.length
  decreasing_by simp only [List.length_drop, List.length_cons]; omega

/-- The number of characters of an expression whose text is followed by its closing brace. -/
def closingBrace? (text : List Char) : Option Nat := closingBraceFrom 0 text

/-- The first top-level identifier equal to `word`. -/
def findWord? (text : List Char) (word : String) : Option Span :=
  ((topLevelTokens text).find? (·.isWord word)).map (·.span)

def findComma? (text : List Char) : Option Nat :=
  ((topLevelTokens text).find? (·.kind == .comma)).map (·.start)

/-- The parenthesised group that ends the text, white space aside, with its parentheses. -/
def trailingGroup? (text : List Char) : Option Span := do
  let top := (topLevelTokens text).reverse
  let last ← top.head?
  if last.kind == .closing .paren && last.stop == byteSize (trimEnd text) then
    let first ← top.find? (·.kind == .opening .paren)
    some ⟨first.start, last.stop⟩
  else none

/-- The identifiers of a text in order, those in strings, templates and comments aside. -/
def identifiers (text : List Char) : List String :=
  ((tokens text).filter (·.kind == .ident)).map (·.text)

end TypedSvelte.Markup
