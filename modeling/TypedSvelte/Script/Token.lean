import TypedSvelte.Text.Blank
import TypedSvelte.Text.Identifier

/-!
# Tokens of scripts

A token is recognised at its first character by `piece`, which looks at nothing before it. Two
characters mean different things in different places: a slash may begin a regular expression, and a
backquote begins a template, whose text is not made of tokens. Both are given here as punctuation,
and whoever reads the grammar reads on from the text that follows them.

Faults that do not keep a token from being read, such as a string that its line ends, are noted in
the token. All text but the first token of a script is strict: it has no octal numbers and escapes
and no comments in the manner of markup.
-/
namespace TypedSvelte.Script

inductive TokenKind where
  /-- An identifier or reserved word; whether it begins with an escape, in which case it is an
  identifier whatever its name. -/
  | word (name : String) (escaped : Bool)
  /-- An identifier after `#`. -/
  | privateName (name : String)
  | number
  /-- A string; its value, unless that is no text. -/
  | string (value : Option String)
  | punct (text : String)
  /-- No token begins here; where the fault lies. -/
  | invalid (offset : Nat)
  | endOfText
  deriving DecidableEq, Repr, Inhabited

structure Token where
  kind : TokenKind
  start : Nat
  stop : Nat
  /-- A line break stands between the token and the one before it. -/
  afterBreak : Bool
  /-- The offsets of faults met on the way to its end. -/
  faults : List Nat
  deriving DecidableEq, Repr, Inhabited

def TokenKind.shift (offset : Nat) : TokenKind → TokenKind
  | .invalid fault => .invalid (fault + offset)
  | kind => kind

/-- The same token counted from `offset` bytes further left. -/
def Token.shift (offset : Nat) (t : Token) : Token :=
  { t with
    kind := t.kind.shift offset, start := t.start + offset, stop := t.stop + offset
    faults := t.faults.map (· + offset) }

def isLineBreak (c : Char) : Bool :=
  c == '\n' || c == '\r' || c == '\u2028' || c == '\u2029'

/-- The characters between tokens, line ends aside: white space and the byte order mark. -/
def isGap (c : Char) : Bool :=
  c == '\uFEFF' || (isBlank c && !isLineBreak c && c != '\u0085')

def isNameStart (c : Char) : Bool := isIdStart c || c == '$' || c == '_'

def isNamePart (c : Char) : Bool := isIdContinue c || c == '$'

inductive Gap where
  | blank
  /-- A comment to the end of its line. -/
  | line
  /-- The second character of a block comment that begins at `opened`. -/
  | opening (opened : Nat)
  /-- A block comment; whether the last character was a star. -/
  | block (opened : Nat) (star : Bool)
  deriving DecidableEq, Repr, Inhabited

structure GapEnd where
  offset : Nat
  afterBreak : Bool
  faults : List Nat
  /-- Where a block comment begins that the text ends. -/
  unclosed : Option Nat
  text : List Char
  deriving DecidableEq, Repr, Inhabited

/-- Passes white space and comments. Comments in the manner of markup, `<!--` and a line that begins
with `-->`, are passed with a fault in strict text. -/
def passGap (strict : Bool) (gap : Gap) (offset : Nat) (afterBreak : Bool) (faults : List Nat) :
    List Char → GapEnd
  | [] =>
    let unclosed := match gap with
      | .opening opened | .block opened _ => some opened
      | .blank | .line => none
    ⟨offset, afterBreak, faults, unclosed, []⟩
  | c :: cs =>
    let next := offset + c.utf8Size
    match gap with
    | .line =>
      if isLineBreak c then passGap strict .blank next true faults cs
      else passGap strict .line next afterBreak faults cs
    | .opening opened => passGap strict (.block opened false) next afterBreak faults cs
    | .block opened star =>
      if star && c == '/' then passGap strict .blank next afterBreak faults cs
      else passGap strict (.block opened (c == '*')) next (afterBreak || isLineBreak c) faults cs
    | .blank =>
      if isLineBreak c then passGap strict .blank next true faults cs
      else if isGap c then passGap strict .blank next afterBreak faults cs
      else if c == '/' && cs.head? == some '/' then passGap strict .line next afterBreak faults cs
      else if c == '/' && cs.head? == some '*' then
        passGap strict (.opening offset) next afterBreak faults cs
      else if (c == '<' && ['!', '-', '-'].isPrefixOf cs)
          || (c == '-' && (afterBreak || offset == 0) && ['-', '>'].isPrefixOf cs) then
        passGap strict .line next afterBreak (if strict then offset :: faults else faults) cs
      else ⟨offset, afterBreak, faults, none, c :: cs⟩

inductive Escape where
  | none
  /-- After the backslash. -/
  | slash
  /-- After `\u`. -/
  | marked
  /-- `left` more hexadecimal digits belong to the escape. -/
  | digits (left value : Nat)
  /-- Within `\u{}`; the value of the digits so far, if there are any. -/
  | braced (value : Option Nat)
  deriving DecidableEq, Repr, Inhabited

def hexValue? (c : Char) : Option Nat :=
  if c.isDigit then some (c.toNat - 48)
  else if 'a' ≤ c && c ≤ 'f' then some (c.toNat - 87)
  else if 'A' ≤ c && c ≤ 'F' then some (c.toNat - 55)
  else none

def escapedValue (c : Char) : Nat :=
  match c with
  | 'n' => 10
  | 't' => 9
  | 'r' => 13
  | 'b' => 8
  | 'v' => 11
  | 'f' => 12
  | '0' => 0
  | c => c.toNat

/-- The code points and lone surrogates that the characters of a string or name stand for, unless an
escape is malformed. A backslash before the end of a line takes that with it. -/
def unescape (state : Escape) : List Char → Option (List Nat)
  | [] => if state == .none then some [] else none
  | '\r' :: '\n' :: cs =>
    match state with
    | .none => (unescape .none cs).map ([13, 10] ++ ·)
    | .slash => unescape .none cs
    | _ => none
  | c :: cs =>
    match state with
    | .none =>
      if c == '\\' then unescape .slash cs else (unescape .none cs).map (c.toNat :: ·)
    | .slash =>
      if isLineBreak c then unescape .none cs
      else if c == 'u' then unescape .marked cs
      else if c == 'x' then unescape (.digits 2 0) cs
      else (unescape .none cs).map (escapedValue c :: ·)
    | .marked =>
      if c == '{' then unescape (.braced none) cs
      else (hexValue? c).bind fun v => unescape (.digits 3 v) cs
    | .digits left value =>
      (hexValue? c).bind fun v =>
        if left ≤ 1 then (unescape .none cs).map ((16 * value + v) :: ·)
        else unescape (.digits (left - 1) (16 * value + v)) cs
    | .braced value =>
      if c == '}' then value.bind fun n => (unescape .none cs).map (n :: ·)
      else (hexValue? c).bind fun v =>
        let n := 16 * value.getD 0 + v
        if n < 0x110000 then unescape (.braced (some n)) cs else none

/-- The text with these code points, pairs of surrogates being joined; none if a surrogate stands
alone. -/
def textOfUnits : List Nat → Option (List Char)
  | [] => some []
  | [n] => if n.isValidChar then some [Char.ofNat n] else none
  | n :: m :: rest =>
    if n.isValidChar then (textOfUnits (m :: rest)).map (Char.ofNat n :: ·)
    else if n < 0xDC00 && 0xDC00 ≤ m && m < 0xE000 then
      (textOfUnits rest).map (Char.ofNat (0x10000 + 0x400 * (n - 0xD800) + (m - 0xDC00)) :: ·)
    else none

/-- A piece of text: its kind, the number of its characters, and the number of bytes before its
first fault, if it has one. -/
structure Piece where
  kind : TokenKind
  length : Nat
  fault : Option Nat
  deriving DecidableEq, Repr, Inhabited

def nameLength (state : Escape) : List Char → Nat
  | [] => 0
  | c :: cs =>
    match state with
    | .slash => if c == 'u' then nameLength .marked cs + 1 else 0
    | .braced v => nameLength (if c == '}' then .none else .braced v) cs + 1
    | .marked =>
      if c == '{' then nameLength (.braced none) cs + 1
      else if isNamePart c then nameLength .none cs + 1
      else 0
    | _ =>
      if c == '\\' then nameLength .slash cs + 1
      else if isNamePart c then nameLength .none cs + 1
      else 0

/-- The name at the beginning of a text, with the number of its characters. -/
def name? (text : List Char) : Option (List Char × Nat) := do
  let length := nameLength .none text
  let chars ← (unescape .none (text.take length)).bind textOfUnits
  let first ← chars.head?
  if isNameStart first && chars.tail.all isNamePart then some (chars, length) else none

/-- The number of characters up to and including the closing quote, or up to the end of the line;
and whether there is a closing quote. A backslash takes the next character with it. -/
def stringReach (quote : Char) : List Char → Nat × Bool
  | [] => (0, false)
  | [c] => if c == '\n' || c == '\r' then (0, false) else (1, c == quote)
  | '\\' :: '\r' :: '\n' :: rest =>
    let (n, closed) := stringReach quote rest
    (n + 3, closed)
  | c :: d :: rest =>
    if c == '\\' then
      let (n, closed) := stringReach quote rest
      (n + 2, closed)
    else if c == '\n' || c == '\r' then (0, false)
    else if c == quote then (1, true)
    else
      let (n, closed) := stringReach quote (d :: rest)
      (n + 1, closed)

def isOctalDigit (c : Char) : Bool := '0' ≤ c && c ≤ '7'

/-- The escape after a backslash stands for a character by its octal number; `\0` does so before
another such digit only. -/
def isOctalEscape : List Char → Bool
  | '0' :: cs => (cs.head?.map isOctalDigit).getD false
  | c :: _ => isOctalDigit c
  | [] => false

def escapeLength : List Char → Nat
  | 'u' :: '{' :: cs => (cs.takeWhile (· != '}')).length + 3
  | 'u' :: _ => 5
  | 'x' :: _ => 3
  | _ => 1

def isMalformedEscape (text : List Char) : Bool :=
  (unescape .slash (text.take (escapeLength text))).isNone

/-- The number of bytes before the first backslash that this is true of what comes after. -/
def firstEscape? (test : List Char → Bool) : List Char → Option Nat
  | [] => none
  | ['\\'] => if test [] then some 0 else none
  | '\\' :: c :: cs =>
    if test (c :: cs) then some 0 else (firstEscape? test cs).map (· + c.utf8Size + 1)
  | c :: cs => (firstEscape? test cs).map (· + c.utf8Size)

/-- A string after its opening quote, which is at byte `offset`. Strict text has no octal
escapes. -/
def stringPiece (strict : Bool) (offset : Nat) (quote : Char) (text : List Char) : Piece :=
  let (length, closed) := stringReach quote text
  let content := text.take (if closed then length - 1 else length)
  match firstEscape? isMalformedEscape content, unescape .none content with
  | none, some units =>
    let octal := if strict then (firstEscape? isOctalEscape content).map (· + 1) else none
    ⟨.string ((textOfUnits units).map String.ofList), length + 1,
      octal <|> if closed then none else some 0⟩
  | before, _ => ⟨.invalid ((before.map (offset + 1 + ·)).getD offset), length + 1, none⟩

def digits (isDigit : Char → Bool) (text : List Char) : List Char :=
  text.takeWhile fun c => isDigit c || c == '_'

def separatorsFit : List Char → Bool
  | [] => true
  | [c] => c != '_'
  | c :: d :: cs => !(c == '_' && d == '_') && separatorsFit (d :: cs)

/-- The test for the digits of a number that is marked as hexadecimal, octal or binary. -/
def markedDigit? : List Char → Option (Char → Bool)
  | '0' :: 'x' :: _ | '0' :: 'X' :: _ => some fun c => (hexValue? c).isSome
  | '0' :: 'o' :: _ | '0' :: 'O' :: _ => some fun c => '0' ≤ c && c ≤ '7'
  | '0' :: 'b' :: _ | '0' :: 'B' :: _ => some fun c => c == '0' || c == '1'
  | _ => none

/-- The number of characters of an exponent before its digits; none if it has no digits. -/
def exponentMark? : List Char → Option Nat
  | e :: s :: cs =>
    if e != 'e' && e != 'E' then none
    else if !(digits Char.isDigit (s :: cs)).isEmpty then some 1
    else if (s == '+' || s == '-') && !(digits Char.isDigit cs).isEmpty then some 2
    else none
  | _ => none

/-- A run of digits that ends a number or a part of it: how many characters there are up to its end,
and how many before it if a separator in it is misplaced. -/
def digitRun (isDigit : Char → Bool) (before : Nat) (text : List Char) : Nat × Option Nat :=
  let run := digits isDigit (text.drop before)
  (before + run.length, if separatorsFit run then none else some before)

/-- The fraction of a number, from its point on. A number in octal digits has none. -/
def fractionRun (whole : Nat) (isOctal : Bool) (text : List Char) : Nat × Option Nat :=
  if text[whole]? == some '.' && !isOctal then digitRun Char.isDigit (whole + 1) text
  else (whole, none)

def exponentRun (before : Nat) (text : List Char) : Nat × Option Nat :=
  match exponentMark? (text.drop before) with
  | none => (before, none)
  | some mark => digitRun Char.isDigit (before + mark) text

/-- The number of characters of a decimal number, and of those before its first fault. A number of
several digits that begins with zero is at fault in strict text. -/
def decimalReach (strict : Bool) (text : List Char) : Nat × Option Nat :=
  let whole := digitRun Char.isDigit 0 text
  let isOctal := text.head? == some '0' && 2 ≤ whole.1
  let wholeFault := if isOctal && strict then some 0 else whole.2
  if text[whole.1]? == some 'n' then (whole.1 + 1, wholeFault)
  else
    let fraction := fractionRun whole.1 isOctal text
    let exponent := exponentRun fraction.1 text
    (exponent.1, wholeFault <|> fraction.2 <|> exponent.2)

/-- A number of so many characters, with its fault. It must not touch an identifier. -/
def numberUpTo (offset : Nat) (text : List Char) (reach : Nat × Option Nat) : Piece :=
  match text[reach.1]? with
  | some c =>
    if isNameStart c then
      ⟨.invalid (offset + byteSize (text.take reach.1)), reach.1, reach.2⟩
    else ⟨.number, reach.1, reach.2⟩
  | none => ⟨.number, reach.1, reach.2⟩

def numberPiece (strict : Bool) (offset : Nat) (text : List Char) : Piece :=
  match markedDigit? text with
  | none => numberUpTo offset text (decimalReach strict text)
  | some isDigit =>
    let run := digitRun isDigit 2 text
    if (digits isDigit (text.drop 2)).any isDigit then
      numberUpTo offset text (if text[run.1]? == some 'n' then run.1 + 1 else run.1, run.2)
    else ⟨.invalid (offset + 2), run.1, run.2⟩

def punctuation : List String :=
  [">>>=", "...", "===", "!==", "**=", "<<=", ">>=", ">>>", "&&=", "||=", "??=", "=>", "==", "!=",
   "<=", ">=", "&&", "||", "??", "?.", "++", "--", "+=", "-=", "*=", "/=", "%=", "&=", "|=", "^=",
   "<<", ">>", "**", "\x7b", "\x7d", "(", ")", "[", "]", ";", ",", "<", ">", "+", "-", "*", "/",
   "%", "&", "|", "^", "!", "~", "?", ":", "=", ".", "`"]

/-- The punctuation at the beginning of a text. `?.` before a digit is a question mark. -/
def punct? (text : List Char) : Option String :=
  match text with
  | '?' :: '.' :: d :: _ =>
    if d.isDigit then some "?" else some "?."
  | _ => punctuation.find? fun p => p.toList.isPrefixOf text

/-- The words that are no identifiers. -/
def reservedWords : List String :=
  ["break", "case", "catch", "class", "const", "continue", "debugger", "default", "delete", "do",
   "else", "export", "extends", "false", "finally", "for", "function", "if", "import", "in",
   "instanceof", "new", "null", "return", "super", "switch", "this", "throw", "true", "try",
   "typeof", "var", "void", "while", "with"]

/-- The words that are no identifiers in strict text besides. -/
def strictWords : List String := ["await", "let", "yield"]

/-- The word is no identifier. -/
def isReserved (strict : Bool) (name : String) : Bool :=
  reservedWords.contains name || (strict && strictWords.contains name)

/-- A word. Only one that is no reserved word may have an escape further on. -/
def wordPiece (strict : Bool) (offset : Nat) (text : List Char) : Piece :=
  match name? text with
  | some (chars, length) =>
    let name := String.ofList chars
    let begun := text.head? == some '\\'
    if !begun && isReserved strict name && (text.take length).contains '\\' then
      ⟨.invalid offset, length, none⟩
    else ⟨.word name begun, length, none⟩
  | none => ⟨.invalid offset, 1, none⟩

/-- The token at the beginning of a text, which is at byte `offset` and begins with no gap. -/
def piece (strict : Bool) (offset : Nat) (text : List Char) : Piece :=
  match text with
  | [] => ⟨.endOfText, 0, none⟩
  | c :: rest =>
    if isNameStart c || c == '\\' then wordPiece strict offset text
    else if c.isDigit || (c == '.' && (rest.head?.map Char.isDigit).getD false) then
      numberPiece strict offset text
    else if c == '"' || c == '\'' then stringPiece strict offset c rest
    else if c == '#' then
      match name? rest with
      | some (chars, length) => ⟨.privateName (String.ofList chars), length + 1, none⟩
      | none => ⟨.invalid offset, 1, none⟩
    else
      match punct? text with
      | some p => ⟨.punct p, p.length, none⟩
      | none => ⟨.invalid offset, 1, none⟩

/-- A token, the text it begins and the text after it. -/
structure Lexed where
  token : Token
  text : List Char
  rest : List Char
  deriving DecidableEq, Repr, Inhabited

/-- The first token of a text that is at byte `offset`. -/
def lex (strict : Bool) (offset : Nat) (text : List Char) : Lexed :=
  let gap := passGap strict .blank offset false [] text
  match gap.unclosed with
  | some opened =>
    ⟨⟨.invalid opened, gap.offset, gap.offset, gap.afterBreak, gap.faults⟩, [], []⟩
  | none =>
    let p := piece strict gap.offset gap.text
    let stop := gap.offset + byteSize (gap.text.take p.length)
    let faults := (p.fault.map (gap.offset + ·)).toList ++ gap.faults
    ⟨⟨p.kind, gap.offset, stop, gap.afterBreak, faults.reverse⟩, gap.text, gap.text.drop p.length⟩

end TypedSvelte.Script
