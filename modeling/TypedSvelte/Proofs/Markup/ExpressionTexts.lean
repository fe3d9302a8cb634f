import TypedSvelte.Proofs.Markup.ClosingBraces
import TypedSvelte.Proofs.Markup.ComponentElements

/-!
# Expression texts

An expression text, a `Code`, is a sequence of identifiers, numbers, strings, comments, marks,
groups in brackets and template literals, in whose substitutions there are expression texts again.
The search for a closing brace passes such a text if its template literals are read as wholes
(`Code.skipped`). A template literal is read by another loop, which counts braces in the raw text
of a substitution, in whatever string, comment or inner literal they stand. So a literal is read as
a whole if its substitutions have no such braces (`Literal.whole_of_plain`), and may not be
otherwise (`misread_literal`).
-/
namespace TypedSvelte.Markup

/-- The text can stand between two quotes: it has no quote and no end of line, except behind a
backslash. -/
def isQuotable (quote : Char) : List Char → Bool
  | [] => true
  | [c] => c != '\\' && c != '\n' && c != quote
  | c :: d :: rest =>
    if c == '\\' then isQuotable quote rest
    else c != '\n' && c != quote && isQuotable quote (d :: rest)

def isCommentable (cs : List Char) : Bool :=
  findText? "*/".toList (cs ++ "*/".toList) == some cs.length

/-- The text can stand in a template literal: it has no backquote and begins no substitution, except
behind a backslash. -/
def isTemplatable : List Char → Bool
  | [] => true
  | [c] => c != '\\' && c != '`'
  | c :: d :: rest =>
    if c == '\\' then isTemplatable rest
    else c != '`' && !(c == '$' && d == '{') && isTemplatable (d :: rest)

def isNumeral : List Char → Bool
  | [] => false
  | c :: cs => c.isDigit && cs.all isNumberChar

/-- A string by its quotes and what stands between them. -/
structure Quotation where
  quote : Char
  content : List Char
  isQuote : quote = '"' ∨ quote = '\''
  quotable : isQuotable quote content = true

abbrev Numeral := { cs : List Char // isNumeral cs = true }

abbrev LineRemark := { cs : List Char // cs.contains '\n' = false }

abbrev BlockRemark := { cs : List Char // isCommentable cs = true }

abbrev LiteralText := { cs : List Char // isTemplatable cs = true }

abbrev PunctMark := { c : Char // isPunct c || c == ',' }

abbrev BlankChar := { c : Char // isBlank c = true }

def Bracket.opener : Bracket → Char
  | .brace => '{'
  | .paren => '('
  | .square => '['

def Bracket.closer : Bracket → Char
  | .brace => '}'
  | .paren => ')'
  | .square => ']'

mutual

/-- A part of an expression text. -/
inductive CodeItem where
  | blank (c : BlankChar)
  | name (e : ScriptName)
  | number (n : Numeral)
  | string (s : Quotation)
  | line (text : LineRemark)
  | block (text : BlockRemark)
  | mark (c : PunctMark)
  | group (bracket : Bracket) (code : Code)
  | literal (t : Literal)

/-- An expression text. -/
inductive Code where
  | nil
  | cons (item : CodeItem) (rest : Code)

/-- What stands between the backquotes of a template literal. -/
inductive Literal where
  | last (text : LiteralText)
  | cons (text : LiteralText) (substitution : Code) (rest : Literal)

end

mutual

/-- The characters of a part. A comment at the end of a line has the end of the line with it. -/
def CodeItem.render : CodeItem → List Char
  | .blank c => [c.val]
  | .name e => e.val
  | .number n => n.val
  | .string s => s.quote :: (s.content ++ [s.quote])
  | .line text => '/' :: '/' :: (text.val ++ ['\n'])
  | .block text => '/' :: '*' :: (text.val ++ "*/".toList)
  | .mark c => [c.val]
  | .group bracket code => bracket.opener :: (code.render ++ [bracket.closer])
  | .literal t => '`' :: (t.render ++ ['`'])

def Code.render : Code → List Char
  | .nil => []
  | .cons item rest => item.render ++ rest.render

/-- The characters between the backquotes of a template literal. -/
def Literal.render : Literal → List Char
  | .last text => text.val
  | .cons text substitution rest =>
    text.val ++ '$' :: '{' :: (substitution.render ++ '}' :: rest.render)

end

mutual

/-- No slash of the part, template literals aside, begins a comment with the character behind it. -/
def CodeItem.separated (next : Option Char) : CodeItem → Bool
  | .mark c => c.val != '/' || !(next == some '/' || next == some '*')
  | .group bracket code => code.separated (some bracket.closer)
  | _ => true

/-- No slash of the text, template literals aside, begins a comment with the character behind it. -/
def Code.separated (next : Option Char) : Code → Bool
  | .nil => true
  | .cons item rest => item.separated (rest.render.head?.or next) && rest.separated next

end

mutual

/-- The template literals in a part, those in substitutions aside. -/
def CodeItem.literals : CodeItem → List Literal
  | .group _ code => code.literals
  | .literal t => [t]
  | _ => []

/-- The template literals in an expression text, those in substitutions aside. -/
def Code.literals : Code → List Literal
  | .nil => []
  | .cons item rest => item.literals ++ rest.literals

end

def Literal.isWhole (t : Literal) : Bool :=
  templateReach 0 (t.render ++ ['`']) == ⟨t.render.length + 1, true⟩

/-- The text has no brace, except behind a backslash, and does not end with a backslash. -/
def isBraceless : List Char → Bool
  | [] => true
  | [c] => c != '\\' && c != '{' && c != '}'
  | c :: d :: rest =>
    if c == '\\' then isBraceless rest else c != '{' && c != '}' && isBraceless (d :: rest)

mutual

/-- The braces of a part in a substitution are those of groups and substitutions. -/
def CodeItem.isPlain : CodeItem → Bool
  | .group _ code => code.isPlain
  | .literal t => t.isPlainWithin
  | item => isBraceless item.render

/-- The braces of an expression text in a substitution are those of groups and substitutions. -/
def Code.isPlain : Code → Bool
  | .nil => true
  | .cons item rest => item.isPlain && rest.isPlain

/-- The braces of a template literal in a substitution are those of groups and substitutions. -/
def Literal.isPlainWithin : Literal → Bool
  | .last text => isBraceless text.val
  | .cons text substitution rest =>
    isBraceless text.val && substitution.isPlain && rest.isPlainWithin

end

/-- In substitutions of the literal there are braces of groups and substitutions only. -/
def Literal.isPlain : Literal → Bool
  | .last _ => true
  | .cons _ substitution rest => substitution.isPlain && rest.isPlain

def Code.text (code : Code) : String := String.ofList code.render

variable {c d : Char} {cs text later : List Char} {depth : Nat}

/-- The search for a closing brace passes the text. -/
def Skipped (text later : List Char) : Prop :=
  ∀ depth, closingBraceFrom depth (text ++ later) =
    (closingBraceFrom depth later).map (· + text.length)

theorem skipped_nil : Skipped [] later := fun _ => Option.map_id'.symm

theorem Skipped.append (first : Skipped cs (text ++ later)) (second : Skipped text later) :
    Skipped (cs ++ text) later := by
  intro depth
  rw [List.append_assoc, first, second, Option.map_map, List.length_append]
  congr 1
  funext n
  exact (Nat.add_assoc ..).trans (congrArg (n + ·) (Nat.add_comm ..))

private theorem closingBraceFrom_opener :
    closingBraceFrom depth ('{' :: later) = (closingBraceFrom (depth + 1) later).map (· + 1) :=
  closingBraceFrom_cons

private theorem closingBraceFrom_closer :
    closingBraceFrom (depth + 1) ('}' :: later) = (closingBraceFrom depth later).map (· + 1) :=
  closingBraceFrom_cons

/-- A piece that is no brace is passed. -/
theorem skipped_piece (kind? : Option TokenKind)
    (read : lexeme c (cs ++ later) = (kind?, cs.length))
    (noBrace : ∀ depth, kind?.elim (some depth) (bracesAfter depth) = some depth) :
    Skipped (c :: cs) later := by
  intro depth
  rw [List.cons_append, closingBraceFrom_cons, read]
  dsimp only
  rw [noBrace, List.drop_left]
  rfl

theorem lexeme_blank (blank : isBlank c = true) : lexeme c later = (none, 0) := by
  by_cases ascii : c.toNat < 128
  · have listed : c.toNat ∈ [9, 10, 11, 12, 13, 32] := by
      simp only [isBlank, Bool.or_eq_true, Bool.and_eq_true, decide_eq_true_eq, beq_iff_eq] at blank
      simp only [List.mem_cons, List.not_mem_nil, or_false]
      omega
    have same (d : Char) (number : c.toNat = d.toNat) : c = d := Char.toNat_inj.1 number
    simp only [List.mem_cons, List.not_mem_nil, or_false] at listed
    rcases listed with h | h | h | h | h | h
    · rw [same '\t' h]; rfl
    · rw [same '\n' h]; rfl
    · rw [same '\x0b' h]; rfl
    · rw [same '\x0c' h]; rfl
    · rw [same '\r' h]; rfl
    · rw [same ' ' h]; rfl
  · exact lexeme_other (Nat.le_of_not_lt ascii)

theorem skipped_blank (blank : isBlank c = true) : Skipped [c] later :=
  skipped_piece _ (lexeme_blank blank) fun _ => rfl

private theorem lexeme_punct (punct : isPunct c = true) (notSlash : c ≠ '/') :
    lexeme c later = (some .punct, 0) := by
  have listed : c ∈ "-=<>!+*/%&|^~?:;.@#".toList := List.contains_iff_mem.1 punct
  simp only [String.reduceToList, List.mem_cons, List.not_mem_nil, or_false] at listed
  rcases listed with rfl | rfl | rfl | rfl | rfl | rfl | rfl | rfl | rfl | rfl | rfl | rfl | rfl |
    rfl | rfl | rfl | rfl | rfl | rfl
  all_goals first | exact absurd rfl notSlash | rfl

private theorem skipped_mark (c : PunctMark)
    (separated : c.val = '/' → later.head? ≠ some '/' ∧ later.head? ≠ some '*') :
    Skipped [c.val] later := by
  obtain ⟨c, isMark⟩ := c
  rcases (Bool.or_eq_true ..).mp isMark with punct | comma
  · by_cases slash : c = '/'
    · have alone : ∀ d, later.head? = some d → d ≠ '/' ∧ d ≠ '*' := by
        intro d first
        have apart := separated slash
        rw [first] at apart
        exact ⟨fun same => apart.1 (congrArg some same), fun same => apart.2 (congrArg some same)⟩
      subst slash
      exact skipped_piece _ (lexeme_slash alone) fun _ => rfl
    · exact skipped_piece _ (lexeme_punct punct slash) fun _ => rfl
  · cases eq_of_beq comma
    exact skipped_piece _ lexeme_comma fun _ => rfl

/-- The character belongs to words and numbers, or to none of the tokens. -/
def isLoose (c : Char) : Bool := isIdentChar c || c == '.' || decide (128 ≤ c.toNat)

private theorem isLoose_of_isNumberChar (number : isNumberChar c = true) : isLoose c = true := by
  simp only [isNumberChar, isLoose, isIdentChar, Bool.or_eq_true] at number ⊢
  rcases number with (letter | mark) | point
  · exact .inl (.inl (.inl (.inl letter)))
  · exact .inl (.inl (.inl (.inr mark)))
  · exact .inl (.inr point)

private theorem lexeme_loose (later : List Char) (loose : isLoose c = true) : ∃ kind? p,
    lexeme c later = (kind?, (later.takeWhile p).length) ∧ (∀ d, p d = true → isLoose d = true) ∧
      ∀ depth, kind?.elim (some depth) (bracesAfter depth) = some depth := by
  have nothing : (later.takeWhile fun _ => false).length = 0 := by cases later <;> rfl
  have never {d : Char} (impossible : false = true) : isLoose d = true :=
    (Bool.false_ne_true impossible).elim
  simp only [isLoose, Bool.or_eq_true, beq_iff_eq, decide_eq_true_eq] at loose
  rcases loose with (ident | rfl) | other
  · by_cases start : isIdentStart c = true
    · refine ⟨_, isIdentChar, lexeme_word start, fun d inWord => ?_, fun _ => rfl⟩
      simp [isLoose, inWord]
    · have digit : c.isDigit = true := by
        simp only [isIdentChar, isIdentStart, Char.isAlphanum, Bool.or_eq_true, not_or]
          at ident start
        exact ((ident.resolve_right start.2).resolve_right start.1.2).resolve_left start.1.1
      have read : lexeme c later = (some .number, (later.takeWhile isNumberChar).length) := by
        unfold lexeme
        rw [if_neg (by simp [isSpace_of_isIdentChar ident]), if_neg start, if_pos digit]
      exact ⟨_, _, read, fun d => isLoose_of_isNumberChar, fun _ => rfl⟩
  · exact ⟨some .punct, fun _ => false, by rw [nothing]; rfl, fun _ => never, fun _ => rfl⟩
  · exact ⟨none, fun _ => false, by rw [nothing, lexeme_other other], fun _ => never, fun _ => rfl⟩

private theorem map_add_succ {found : Option Nat} (n : Nat) :
    found.map (· + (n + 1)) = (found.map (· + n)).map (· + 1) :=
  (Option.map_map ..).symm

/-- Words are passed, also where they and what follows them are one token. -/
theorem skipped_loose (loose : ∀ d ∈ text, isLoose d = true) : Skipped text later := by
  -- a token may pass many characters at once, so the induction is on the length of all that is left
  induction size : (text ++ later).length using Nat.strongRecOn generalizing text later with
  | ind n ih =>
    cases text with
    | nil => exact skipped_nil
    | cons c cs =>
      intro depth
      obtain ⟨here, others⟩ := List.forall_mem_cons.1 loose
      obtain ⟨kind?, p, read, inRun, noBrace⟩ := lexeme_loose (cs ++ later) here
      have shorter : (cs ++ later).length < n := by
        rw [← size]
        exact Nat.lt_succ_self _
      have begins := List.prefix_iff_eq_take.1 (List.takeWhile_prefix p (l := cs ++ later))
      have parts : (cs ++ later).takeWhile p ++
          (cs ++ later).drop ((cs ++ later).takeWhile p).length = cs ++ later :=
        (congrArg (· ++ _) begins).trans (List.take_append_drop _ _)
      have run := ih _ shorter (fun d member => inRun d (List.mem_takeWhile_imp member))
        (congrArg List.length parts) depth
      have word := ih _ shorter others rfl depth
      rw [parts] at run
      rw [List.cons_append, closingBraceFrom_cons, read]
      dsimp only
      rw [noBrace]
      dsimp only
      rw [map_add_succ, ← run, word, List.length_cons, map_add_succ cs.length]

private theorem isLoose_name (e : ScriptName) : ∀ d ∈ e.val, isLoose d = true := by
  obtain ⟨_, _, _, parts⟩ := scriptName_cases e
  intro d member
  rcases isNamePart_cases (parts d member) with ident | ⟨other, _⟩ <;> simp [isLoose, *]

private theorem isLoose_numeral (n : Numeral) : ∀ d ∈ n.val, isLoose d = true := by
  obtain ⟨chars, valid⟩ := n
  cases chars with
  | nil => cases valid
  | cons c cs =>
    simp only [isNumeral, Bool.and_eq_true, List.all_eq_true] at valid
    have first : isNumberChar c = true := by simp [isNumberChar, Char.isAlphanum, valid.1]
    exact List.forall_mem_cons.2 ⟨isLoose_of_isNumberChar first,
      fun d member => isLoose_of_isNumberChar (valid.2 d member)⟩

private theorem quotedReach_quotable {quote : Char} (isQuote : quote = '"' ∨ quote = '\'')
    (quotable : isQuotable quote text = true) :
    quotedReach quote (text ++ quote :: later) = ⟨text.length + 1, true⟩ := by
  have closes : quotedReach quote (quote :: later) = ⟨1, true⟩ := by
    rcases isQuote with rfl | rfl <;> cases later <;> rfl
  fun_induction isQuotable quote text with
  | case1 => exact closes
  | case2 c =>
    simp only [Bool.and_eq_true, bne_iff_ne] at quotable
    obtain ⟨⟨backslash, newline⟩, other⟩ := quotable
    simp [quotedReach, backslash, newline, other, closes, Reach.add]
  | case3 c d rest backslash ih =>
    simp [quotedReach, backslash, ih quotable, Reach.add]
  | case4 c d rest notBackslash ih =>
    simp only [Bool.and_eq_true, bne_iff_ne] at quotable
    obtain ⟨⟨newline, other⟩, others⟩ := quotable
    have inner := ih others
    rw [List.cons_append] at inner
    simp [quotedReach, notBackslash, newline, other, inner, Reach.add]

private theorem skipped_string (s : Quotation) : Skipped (s.quote :: (s.content ++ [s.quote])) later := by
  refine skipped_piece (some .string) ?_ fun _ => rfl
  rw [lexeme_quote s.isQuote, List.append_assoc, List.singleton_append,
    quotedReach_quotable s.isQuote s.quotable, List.length_append]
  rfl

private theorem skipped_line (text : LineRemark) :
    Skipped ('/' :: '/' :: (text.val ++ ['\n'])) later := by
  have onLine : ∀ d ∈ text.val, (d != '\n') = true := by
    intro d member
    rw [bne_iff_ne]
    rintro rfl
    have absent := text.property
    rw [List.contains_iff_mem.2 member] at absent
    cases absent
  have read : lexeme '/' ('/' :: text.val ++ '\n' :: later) =
      (some .comment, ('/' :: text.val).length) := by
    rw [List.cons_append, lexeme_line, List.takeWhile_append_of_pos onLine,
      List.takeWhile_cons_of_neg (by decide), List.append_nil, List.length_cons, Nat.add_comm]
  exact (skipped_piece _ read fun _ => rfl).append (skipped_blank (by decide))

private theorem skipped_block (text : BlockRemark) :
    Skipped ('/' :: '*' :: (text.val ++ "*/".toList)) later := by
  have reach : blockCommentReach (text.val ++ "*/".toList) = ⟨text.val.length + 2, true⟩ := by
    have found : findText? ['*', '/'] (text.val ++ "*/".toList) = _ := eq_of_beq text.property
    rw [blockCommentReach, found]
  refine skipped_piece (some .comment) ?_ fun _ => rfl
  rw [List.cons_append, lexeme_block, blockCommentReach_append (by rw [reach]), reach]
  simp

private theorem skipped_literal {t : Literal} (isWhole : t.isWhole = true) :
    Skipped ('`' :: (t.render ++ ['`'])) later := by
  have reach : templateReach 0 (t.render ++ ['`']) = _ := eq_of_beq isWhole
  refine skipped_piece (some .template) ?_ fun _ => rfl
  rw [lexeme_backquote, templateReach_append (by rw [reach]), reach, List.length_append]
  rfl

private theorem skipped_group {bracket : Bracket}
    (inside : Skipped text ([bracket.closer] ++ later)) :
    Skipped (bracket.opener :: (text ++ [bracket.closer])) later := by
  cases bracket with
  | brace =>
    intro depth
    rw [Bracket.opener, List.cons_append, closingBraceFrom_opener, List.append_assoc,
      inside (depth + 1), Bracket.closer, List.singleton_append, closingBraceFrom_closer,
      Option.map_map, Option.map_map]
    congr 1
    funext n
    simp only [Function.comp, List.length_cons, List.length_append, List.length_nil]
    omega
  | paren =>
    have opener : Skipped ['('] (text ++ [')'] ++ later) :=
      skipped_piece _ lexeme_openingParen fun _ => rfl
    have closer : Skipped [')'] later := skipped_piece _ lexeme_closingParen fun _ => rfl
    exact opener.append (inside.append closer)
  | square =>
    have opener : Skipped ['['] (text ++ [']'] ++ later) :=
      skipped_piece (some (.opening .square)) rfl fun _ => rfl
    have closer : Skipped [']'] later :=
      skipped_piece (some (.closing .square)) rfl fun _ => rfl
    exact opener.append (inside.append closer)

mutual

theorem CodeItem.skipped (item : CodeItem) (whole : ∀ t ∈ item.literals, t.isWhole = true)
    {later : List Char} (separated : item.separated later.head? = true) :
    Skipped item.render later := by
  cases item with
  | blank c => exact skipped_blank c.property
  | name e => exact skipped_loose (isLoose_name e)
  | number n => exact skipped_loose (isLoose_numeral n)
  | string s => exact skipped_string s
  | line text => exact skipped_line text
  | block text => exact skipped_block text
  | mark c =>
    refine skipped_mark c fun slash => ?_
    simpa [CodeItem.separated, slash] using separated
  | group bracket code =>
    exact skipped_group (code.skipped whole separated)
  | literal t => exact skipped_literal (whole t (.head _))

theorem Code.skipped (code : Code) (whole : ∀ t ∈ code.literals, t.isWhole = true)
    {later : List Char} (separated : code.separated later.head? = true) :
    Skipped code.render later := by
  cases code with
  | nil => exact skipped_nil
  | cons item rest =>
    rw [Code.literals] at whole
    rw [Code.separated, ← List.head?_append, Bool.and_eq_true] at separated
    have first := item.skipped (fun t member => whole t (List.mem_append_left _ member)) separated.1
    exact first.append
      (rest.skipped (fun t member => whole t (List.mem_append_right _ member)) separated.2)

end

/-- Inside a substitution a text leaves the number of open braces as it is. -/
def Counted (text later : List Char) : Prop :=
  ∀ depth, templateReach (depth + 1) (text ++ later) =
    (templateReach (depth + 1) later).add text.length

private theorem counted_nil : Counted [] later := fun _ => rfl

theorem Counted.append (first : Counted cs (text ++ later)) (second : Counted text later) :
    Counted (cs ++ text) later := by
  intro depth
  rw [List.append_assoc, first, second, Reach.add_add, List.length_append, Nat.add_comm]

/-- Inside a substitution only braces and backslashes matter. -/
theorem counted_char (notBackslash : c ≠ '\\') (notOpening : c ≠ '{') (notClosing : c ≠ '}') :
    Counted [c] later := by
  intro depth
  rw [List.singleton_append]
  cases later with
  | nil => simp [templateReach, Reach.add]
  | cons d rest =>
    by_cases substitution : c = '$' ∧ d = '{'
    · obtain ⟨rfl, rfl⟩ := substitution
      cases rest with
      | nil => simp [templateReach, Reach.add]
      | cons e rest => simp [templateReach, Reach.add]
    · simp [templateReach, Reach.add, notBackslash, notOpening, notClosing, substitution]

private theorem templateReach_opener :
    templateReach (depth + 1) ('{' :: later) = (templateReach (depth + 2) later).add 1 := by
  cases later <;> simp [templateReach, Reach.add]

private theorem templateReach_closer :
    templateReach (depth + 1) ('}' :: later) = (templateReach depth later).add 1 := by
  cases later <;> simp [templateReach, Reach.add]

private theorem counted_braceless (braceless : isBraceless text = true) : Counted text later := by
  fun_induction isBraceless text with
  | case1 => exact counted_nil
  | case2 c =>
    simp only [Bool.and_eq_true, bne_iff_ne] at braceless
    exact counted_char braceless.1.1 braceless.1.2 braceless.2
  | case3 c d rest backslash ih =>
    intro depth
    cases eq_of_beq backslash
    change (templateReach (depth + 1) (rest ++ later)).add 2 = _
    rw [ih braceless depth, Reach.add_add]
    rfl
  | case4 c d rest notBackslash ih =>
    simp only [Bool.and_eq_true, bne_iff_ne] at braceless
    have first : Counted [c] (d :: rest ++ later) :=
      counted_char (by simpa using notBackslash) braceless.1.1 braceless.1.2
    exact first.append (ih braceless.2)

private theorem counted_group {bracket : Bracket} (inside : Counted text ([bracket.closer] ++ later)) :
    Counted (bracket.opener :: (text ++ [bracket.closer])) later := by
  cases bracket with
  | brace =>
    intro depth
    rw [Bracket.opener, List.cons_append, templateReach_opener, List.append_assoc,
      inside (depth + 1), Bracket.closer, List.singleton_append, templateReach_closer,
      Reach.add_add, Reach.add_add, List.length_cons, List.length_append, List.length_singleton]
    congr 1
    omega
  | paren =>
    have opener : Counted ['('] (text ++ [')'] ++ later) :=
      counted_char (by decide) (by decide) (by decide)
    have closer : Counted [')'] later := counted_char (by decide) (by decide) (by decide)
    exact opener.append (inside.append closer)
  | square =>
    have opener : Counted ['['] (text ++ [']'] ++ later) :=
      counted_char (by decide) (by decide) (by decide)
    have closer : Counted [']'] later := counted_char (by decide) (by decide) (by decide)
    exact opener.append (inside.append closer)

mutual

theorem CodeItem.counted (item : CodeItem) (plain : item.isPlain = true) {later : List Char} :
    Counted item.render later := by
  cases item with
  | group bracket code => exact counted_group (code.counted plain)
  | literal t =>
    have quote (rest : List Char) : Counted ['`'] rest :=
      counted_char (by decide) (by decide) (by decide)
    exact (quote _).append ((t.counted plain).append (quote _))
  | blank | name | number | string | line | block | mark => exact counted_braceless plain

theorem Code.counted (code : Code) (plain : code.isPlain = true) {later : List Char} :
    Counted code.render later := by
  cases code with
  | nil => exact counted_nil
  | cons item rest =>
    rw [Code.isPlain, Bool.and_eq_true] at plain
    exact (item.counted plain.1).append (rest.counted plain.2)

theorem Literal.counted (t : Literal) (plain : t.isPlainWithin = true) {later : List Char} :
    Counted t.render later := by
  cases t with
  | last text => exact counted_braceless plain
  | cons text substitution rest =>
    rw [Literal.isPlainWithin, Bool.and_eq_true, Bool.and_eq_true] at plain
    have dollar (later : List Char) : Counted ['$'] later :=
      counted_char (by decide) (by decide) (by decide)
    have braces := @counted_group substitution.render (rest.render ++ later) .brace
      (substitution.counted plain.1.2)
    have whole := (counted_braceless plain.1.1).append
      ((dollar _).append (braces.append (rest.counted plain.2)))
    rw [Literal.render]
    simpa [Bracket.opener, Bracket.closer] using whole

end

/-- A text of a template literal is passed before a backquote or a substitution. -/
theorem templateReach_templatable (templatable : isTemplatable text = true) (d : Char)
    (apart : d ≠ '{') :
    templateReach 0 (text ++ d :: later) = (templateReach 0 (d :: later)).add text.length := by
  fun_induction isTemplatable text with
  | case1 => rfl
  | case2 c =>
    simp only [Bool.and_eq_true, bne_iff_ne] at templatable
    simp [templateReach, templatable, apart]
  | case3 c e rest backslash ih =>
    cases eq_of_beq backslash
    change (templateReach 0 (rest ++ d :: later)).add 2 = _
    rw [ih templatable, Reach.add_add]
    rfl
  | case4 c e rest notBackslash ih =>
    simp only [Bool.and_eq_true, bne_iff_ne, Bool.not_eq_true'] at templatable
    obtain ⟨⟨notQuote, noSubstitution⟩, others⟩ := templatable
    have step : templateReach 0 (c :: e :: rest ++ d :: later) =
        (templateReach 0 (e :: rest ++ d :: later)).add 1 := by
      simp [templateReach, notBackslash, notQuote, noSubstitution]
    rw [step, ih others, Reach.add_add]
    rfl

private theorem templateReach_plain (t : Literal) (plain : t.isPlain = true) :
    templateReach 0 (t.render ++ ['`']) = ⟨t.render.length + 1, true⟩ := by
  match t with
  | .last text =>
    rw [Literal.render, templateReach_templatable text.property '`' (by decide)]
    simp [templateReach, Reach.add, Nat.add_comm]
  | .cons text substitution rest =>
    rw [Literal.isPlain, Bool.and_eq_true] at plain
    have opens (later : List Char) :
        templateReach 0 ('$' :: '{' :: later) = (templateReach 1 later).add 2 := rfl
    have counted : Counted substitution.render ('}' :: (rest.render ++ ['`'])) :=
      substitution.counted plain.1
    rw [Literal.render, List.append_assoc, List.cons_append,
      templateReach_templatable text.property '$' (by decide), List.cons_append, opens,
      List.append_assoc, List.cons_append, counted 0, templateReach_closer,
      templateReach_plain rest plain.2]
    simp only [Reach.add, List.length_append, List.length_cons]
    congr 1
    omega

private theorem Literal.whole_of_plain {t : Literal} (plain : t.isPlain = true) : t.isWhole = true :=
  beq_iff_eq.2 (templateReach_plain t plain)

theorem Code.enclosed {code : Code} (separated : code.separated (some '}') = true)
    (whole : ∀ t ∈ code.literals, t.isWhole = true) : IsEnclosed code.render := by
  have skipped : Skipped code.render ['}'] := code.skipped whole separated
  have here : closingBraceFrom 0 ['}'] = some 0 := closingBraceFrom_cons
  refine (@closingBrace?_append_iff _ []).1 ((skipped 0).trans ?_)
  rw [here, Option.map_some, Nat.zero_add]

theorem closingBraceAt?_eq_size_iff {code : Code} {rest : String} :
    closingBraceAt? (code.text ++ "\x7d" ++ rest) = some code.text.utf8ByteSize ↔
      IsEnclosed code.render := by
  have parts : (code.text ++ "\x7d" ++ rest).toList = code.render ++ '}' :: rest.toList := by
    simp [Code.text]
  rw [closingBraceAt?_eq_some_iff, parts, Code.text, utf8ByteSize_ofList]
  constructor
  · rintro ⟨front, others, same, enclosed, size⟩
    rw [eq_of_byteSize_eq same size.symm]
    exact enclosed
  · intro enclosed
    exact ⟨_, _, rfl, enclosed, rfl⟩

/-- The brace behind an expression text is found exactly if the text is enclosed, whatever comes
after it. The text is, if its template literals are read as wholes; and a literal is, if there are
no braces in the strings, comments and inner literals of its substitutions. -/
theorem closing_brace_expression (code : Code) (separated : code.separated (some '}') = true)
    (rest : String) :
    (closingBraceAt? (code.text ++ "\x7d" ++ rest) = some code.text.utf8ByteSize ↔
        IsEnclosed code.render) ∧
      ((∀ t ∈ code.literals, t.isWhole = true) → IsEnclosed code.render) ∧
      ∀ t ∈ code.literals, t.isPlain = true → t.isWhole = true :=
  ⟨closingBraceAt?_eq_size_iff, Code.enclosed separated, fun _ _ => Literal.whole_of_plain⟩

/-- An object in a substitution behind a string with a brace. -/
theorem closing_brace_expression_object :
    closingBraceAt? ("'\x7d'+`a$\x7b\x7bb\x7d\x7d`" ++ "\x7d" ++ "</p>") = some 13 := by
  let object : Literal := .cons ⟨['a'], rfl⟩
    (.cons (.group .brace (.cons (.name ⟨['b'], by decide +kernel⟩) .nil)) .nil) (.last ⟨[], rfl⟩)
  let code : Code := .cons (.string ⟨'\'', ['}'], .inr rfl, rfl⟩)
    (.cons (.mark ⟨'+', rfl⟩) (.cons (.literal object) .nil))
  have separated : code.separated (some '}') = true := rfl
  have plain : ∀ t ∈ code.literals, t.isPlain = true := List.forall_mem_singleton.2 rfl
  have ⟨found, enclosed, whole⟩ := closing_brace_expression code separated "</p>"
  exact found.2 (enclosed fun t member => whole t member (plain t member))

/-- A template literal in whose substitution a string has a brace. -/
def bracedString : Code :=
  .cons (.literal (.cons ⟨[], rfl⟩ (.cons (.string ⟨'\'', ['{'], .inr rfl, rfl⟩) .nil)
    (.last ⟨[], rfl⟩))) .nil

/-- The brace in the string is counted as one of the substitution, so the literal never ends. -/
theorem misread_literal : bracedString.separated (some '}') = true ∧
    bracedString.text = "`$\x7b'\x7b'\x7d`" ∧ bracedString.text.utf8ByteSize = 8 ∧
    closingBraceAt? (bracedString.text ++ "\x7d" ++ "") = none := by
  decide +kernel

end TypedSvelte.Markup
