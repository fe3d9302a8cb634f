import TypedSvelte.Proofs.Markup.HeaderSlices
import TypedSvelte.Proofs.Markup.Rendering

/-!
# Headers of identifiers

The header of a rendered block consists of identifiers with spaces, commas and parentheses between
them. Its tokens are known, so is what the header is split into: up to spans, the identifiers that
it was rendered from (`bare_eachHeader`, `bare_elseIf`). A word is read as a whole only if what
follows does not go on with it, which `EndsWord` says.
-/
namespace TypedSvelte.Markup

/-- The characters of identifiers by their numbers. -/
theorem range_of_isIdentChar {c : Char} (ident : isIdentChar c = true) :
    65 ≤ c.toNat ∧ c.toNat ≤ 90 ∨ 97 ≤ c.toNat ∧ c.toNat ≤ 122 ∨ 48 ≤ c.toNat ∧ c.toNat ≤ 57 ∨
      c.toNat = 95 ∨ c.toNat = 36 := by
  change ((((decide (65 ≤ c.val ∧ c.val ≤ 90) || (decide (97 ≤ c.val) && decide (c.val ≤ 122))) ||
    (decide (48 ≤ c.val) && decide (c.val ≤ 57))) || c == '_') || c == '$') = true at ident
  simp only [Bool.or_eq_true, Bool.and_eq_true, decide_eq_true_eq, beq_iff_eq,
    UInt32.le_iff_toNat_le] at ident
  change ((((65 ≤ c.toNat ∧ c.toNat ≤ 90) ∨ (97 ≤ c.toNat ∧ c.toNat ≤ 122)) ∨
    (48 ≤ c.toNat ∧ c.toNat ≤ 57)) ∨ c = '_') ∨ c = '$' at ident
  rcases ident with (((upper | lower) | digit) | rfl) | rfl
  · exact .inl upper
  · exact .inr (.inl lower)
  · exact .inr (.inr (.inl digit))
  · decide
  · decide

/-- A character of a class differs from one that does not belong to it. -/
theorem ne_of_class {p : Char → Bool} {c mark : Char} (inClass : p c = true)
    (notIn : p mark = false) : mark ≠ c := by
  rintro rfl
  rw [inClass] at notIn
  cases notIn

theorem isAlpha_of_isLower {c : Char} (lower : c.isLower = true) : c.isAlpha = true :=
  (congrArg (c.isUpper || ·) lower).trans (Bool.or_true _)

theorem isBlank_of_isIdentChar {c : Char} (ident : isIdentChar c = true) : isBlank c = false := by
  have range := range_of_isIdentChar ident
  simp only [isBlank, Bool.or_eq_false_iff, Bool.and_eq_false_iff, decide_eq_false_iff_not,
    beq_eq_false_iff_ne]
  omega

private theorem isBlank_of_isSpace {c : Char} (space : isSpace c = true) : isBlank c = true := by
  simp only [isSpace, Bool.or_eq_true, beq_iff_eq] at space
  rcases space with (((rfl | rfl) | rfl) | rfl) | rfl <;> decide

theorem isSpace_of_isIdentChar {c : Char} (ident : isIdentChar c = true) : isSpace c = false := by
  cases space : isSpace c with
  | false => rfl
  | true => exact absurd (isBlank_of_isSpace space) (by simp [isBlank_of_isIdentChar ident])

theorem isIdentChar_of_isIdentStart {c : Char} (start : isIdentStart c = true) :
    isIdentChar c = true := by
  simp only [isIdentStart, isIdentChar, Char.isAlphanum, Bool.or_eq_true] at start ⊢
  rcases start with (letter | mark) | mark
  · exact .inl (.inl (.inl letter))
  · exact .inl (.inr mark)
  · exact .inr mark

theorem isWord_iff {cs : List Char} :
    isWord cs = true ↔ ∃ c rest, cs = c :: rest ∧ isIdentStart c = true ∧
      ∀ d ∈ cs, isIdentChar d = true := by
  cases cs with
  | nil => simp [isWord]
  | cons c rest =>
    simp only [isWord, Bool.and_eq_true, List.all_eq_true]
    constructor
    · rintro ⟨start, chars⟩
      exact ⟨c, rest, rfl, start,
        List.forall_mem_cons.2 ⟨isIdentChar_of_isIdentStart start, chars⟩⟩
    · rintro ⟨d, others, same, start, chars⟩
      cases same
      exact ⟨start, fun d member => chars d (.tail _ member)⟩

theorem Ident.isWord (e : Ident) : isWord e.val = true := by
  have valid := e.property
  simp only [isIdentifier, Bool.and_eq_true] at valid
  exact valid.1

/-- The word that a header looks for is no identifier. -/
theorem Ident.ne_word (e : Ident) {word : String} (reserved : word ∈ headerWords) :
    String.ofList e.val ≠ word := by
  have valid := e.property
  simp only [isIdentifier, Bool.and_eq_true, Bool.not_eq_true', List.contains_eq_mem,
    decide_eq_false_iff_not] at valid
  exact fun same => valid.2 (same ▸ reserved)

theorem Ident.ne_nil (e : Ident) : e.val ≠ [] := by
  obtain ⟨c, cs, filled, _⟩ := isWord_iff.1 e.isWord
  rw [filled]
  exact List.cons_ne_nil _ _

theorem trimmed_of_isWord {cs : List Char} (word : isWord cs = true) : Trimmed cs := by
  obtain ⟨c, rest, rfl, _, chars⟩ := isWord_iff.1 word
  exact ⟨fun d first => isBlank_of_isIdentChar (chars d (List.mem_of_mem_head? first)),
    fun d last => isBlank_of_isIdentChar (chars d (List.mem_of_getLast? last))⟩

theorem isBlank_space : ∀ c ∈ [' '], isBlank c = true := List.forall_mem_singleton.2 (by decide)

/-- A header stands after a space. -/
theorem trim_header {header : List Char} (trimmed : Trimmed header) (filled : header ≠ []) :
    trim (' ' :: header) = header := by
  have whole := @trim_around [' '] header [] trimmed filled isBlank_space nofun
  rwa [List.append_nil] at whole

/-- White space around an identifier is what trimming takes away. -/
theorem trim_ident {e : Ident} {lead trail : List Char} (leadBlank : ∀ c ∈ lead, isBlank c = true)
    (trailBlank : ∀ c ∈ trail, isBlank c = true) : trim (lead ++ e.val ++ trail) = e.val :=
  trim_around (trimmed_of_isWord e.isWord) e.ne_nil leadBlank trailBlank

private theorem trim_val (e : Ident) : trim e.val = e.val := by
  have whole := @trim_ident e [] [] nofun nofun
  rwa [List.nil_append, List.append_nil] at whole

variable {offset : Nat} {rest : List Char}

/-- What follows a run of characters does not go on with it. -/
def EndsRun (p : Char → Bool) (rest : List Char) : Prop := ∀ c, rest.head? = some c → p c = false

theorem endsRun_cons {p : Char → Bool} {c : Char} (other : p c = false) : EndsRun p (c :: rest) := by
  rintro d ⟨⟩
  exact other

theorem drop_length_takeWhile (p : Char → Bool) (cs : List Char) :
    cs.drop (cs.takeWhile p).length = cs.dropWhile p := by
  have split := List.takeWhile_append_dropWhile (p := p) (l := cs)
  exact (congrArg (List.drop _) split).symm.trans List.drop_left

theorem endsRun_dropWhile (p : Char → Bool) (cs : List Char) : EndsRun p (cs.dropWhile p) := by
  intro c first
  have other := List.head?_dropWhile_not p cs
  rw [first] at other
  simpa using other

/-- What follows a word does not go on with it. -/
abbrev EndsWord (rest : List Char) : Prop := EndsRun isIdentChar rest

/-- A run of characters ends where the next one does not belong to it. -/
theorem takeWhile_until {p : Char → Bool} {cs rest : List Char} (run : ∀ d ∈ cs, p d = true)
    (ends : EndsRun p rest) : (cs ++ rest).takeWhile p = cs := by
  rw [List.takeWhile_append_of_pos run]
  cases rest with
  | nil => simp
  | cons c rest =>
    rw [List.takeWhile_cons_of_neg (by simp [ends c rfl]), List.append_nil]

theorem lexeme_word {c : Char} {cs : List Char} (start : isIdentStart c = true) :
    lexeme c cs = (some .ident, (cs.takeWhile isIdentChar).length) := by
  unfold lexeme
  rw [if_neg (by simp [isSpace_of_isIdentChar (isIdentChar_of_isIdentStart start)]), if_pos start]

theorem tokensFrom_word {word rest : List Char} (isWord : isWord word = true)
    (ends : EndsWord rest) :
    tokensFrom offset (word ++ rest) =
      ⟨.ident, offset, word⟩ :: tokensFrom (offset + byteSize word) rest := by
  obtain ⟨c, cs, rfl, start, chars⟩ := isWord_iff.1 isWord
  have run : (cs ++ rest).takeWhile isIdentChar = cs :=
    takeWhile_until (fun d member => chars d (.tail _ member)) ends
  rw [List.cons_append, tokensFrom, lexeme_word start, run]
  simp

private theorem tokensFrom_space : tokensFrom offset (' ' :: rest) = tokensFrom (offset + 1) rest := by
  rw [tokensFrom]
  rfl

/-- A bracket or comma is read as a token of its own. -/
theorem tokensFrom_mark {c : Char} {kind : TokenKind}
    (read : lexeme c rest = (some kind, 0)) :
    tokensFrom offset (c :: rest) = ⟨kind, offset, [c]⟩ :: tokensFrom (offset + c.utf8Size) rest := by
  rw [tokensFrom, read]
  rfl

theorem lexeme_comma : lexeme ',' rest = (some .comma, 0) := rfl

theorem lexeme_openingParen : lexeme '(' rest = (some (.opening .paren), 0) := rfl

theorem lexeme_closingParen : lexeme ')' rest = (some (.closing .paren), 0) := rfl

/-- The characters of the headers that are rendered. -/
def isHeaderChar (c : Char) : Bool := isIdentChar c || " ,()".toList.contains c

private theorem length_takeWhile_le {p : Char → Bool} {cs rest : List Char} {stop : Char}
    (ends : p stop = false) : ((cs ++ stop :: rest).takeWhile p).length ≤ cs.length := by
  induction cs with
  | nil => simp [ends]
  | cons c cs ih =>
    rw [List.cons_append, List.takeWhile_cons]
    split
    · exact Nat.succ_le_succ ih
    · exact Nat.zero_le _

/-- The piece that begins with `c` is no brace, and does not reach over a closing brace. -/
def StopsAtBrace (c : Char) : Prop :=
  ∀ cs rest, ∃ kind? n, lexeme c (cs ++ '}' :: rest) = (kind?, n) ∧ n ≤ cs.length ∧
    kind? ≠ some (.opening .brace) ∧ kind? ≠ some (.closing .brace)

/-- No brace is seen in a header, and no piece of a header reaches over its end. -/
theorem stopsAtBrace_header {c : Char} (plain : isHeaderChar c = true) : StopsAtBrace c := by
  intro cs rest
  simp only [isHeaderChar, Bool.or_eq_true] at plain
  rcases plain with ident | mark
  · by_cases start : isIdentStart c = true
    · exact ⟨_, _, lexeme_word start, length_takeWhile_le (by decide), nofun, nofun⟩
    · have digit : c.isDigit = true := by
        simp only [isIdentChar, isIdentStart, Char.isAlphanum, Bool.or_eq_true, not_or] at ident start
        exact ((ident.resolve_right start.2).resolve_right start.1.2).resolve_left start.1.1
      have read : lexeme c (cs ++ '}' :: rest) =
          (some .number, ((cs ++ '}' :: rest).takeWhile isNumberChar).length) := by
        unfold lexeme
        rw [if_neg (by simp [isSpace_of_isIdentChar ident]), if_neg start, if_pos digit]
      exact ⟨_, _, read, length_takeWhile_le (by decide), nofun, nofun⟩
  · have listed : c ∈ [' ', ',', '(', ')'] := List.contains_iff_mem.1 mark
    simp only [List.mem_cons, List.not_mem_nil, or_false] at listed
    rcases listed with rfl | rfl | rfl | rfl
    · exact ⟨_, _, rfl, Nat.zero_le _, nofun, nofun⟩
    · exact ⟨_, _, lexeme_comma, Nat.zero_le _, nofun, nofun⟩
    · exact ⟨_, _, lexeme_openingParen, Nat.zero_le _, nofun, nofun⟩
    · exact ⟨_, _, lexeme_closingParen, Nat.zero_le _, nofun, nofun⟩

/-- A text of such pieces ends at the next closing brace. -/
theorem closingBrace?_until {cs rest : List Char} (stops : ∀ d ∈ cs, StopsAtBrace d) :
    closingBrace? (cs ++ '}' :: rest) = some cs.length := by
  unfold closingBrace?
  -- a piece may pass many characters at once, so the induction is on the length of the text
  induction len : cs.length using Nat.strongRecOn generalizing cs with
  | ind m ih =>
    cases cs with
    | nil =>
      rw [List.nil_append, closingBraceFrom, ← len]
      rfl
    | cons c cs =>
      obtain ⟨here, others⟩ := List.forall_mem_cons.1 stops
      obtain ⟨kind?, n, read, bound, notOpening, notClosing⟩ := here cs rest
      have later : closingBraceFrom 0 ((cs ++ '}' :: rest).drop n) = some (cs.length - n) := by
        rw [List.drop_append_of_le_length bound]
        have shorter : (cs.drop n).length < m := by
          rw [List.length_drop, ← len, List.length_cons]
          omega
        rw [ih _ shorter (fun d member => others d (List.mem_of_mem_drop member)) rfl,
          List.length_drop]
      rw [List.cons_append, closingBraceFrom, read]
      dsimp only
      split
      · exact absurd rfl notOpening
      · exact absurd rfl notClosing
      · exact absurd rfl notClosing
      · rw [later, ← len]
        simp only [Option.map_some, List.length_cons, Option.some.injEq]
        omega

/-- A header ends at the next closing brace. -/
theorem closingBrace?_header {cs rest : List Char} (plain : ∀ d ∈ cs, isHeaderChar d = true) :
    closingBrace? (cs ++ '}' :: rest) = some cs.length :=
  closingBrace?_until fun d member => stopsAtBrace_header (plain d member)

theorem outermost_plain {t : Token} {ts : List Token} (plain : t.kind = .ident ∨ t.kind = .comma) :
    outermost 0 (t :: ts) = t :: outermost 0 ts := by
  rcases plain with plain | plain
  · rw [outermost, plain]
    rfl
  · rw [outermost, plain]
    rfl

/-- A word at the beginning is found first. -/
theorem findWord?_head {word : String} (isWord : isWord word.toList = true) (ends : EndsWord rest) :
    findWord? (word.toList ++ rest) word = some ⟨0, byteSize word.toList⟩ := by
  unfold findWord? topLevelTokens tokens
  rw [tokensFrom_word isWord ends, outermost_plain (.inl rfl), List.find?_cons_of_pos]
  · simp [Token.span, Token.stop]
  · simp [Token.isWord, Token.text]

/-- A word after an identifier that differs from it is found. -/
theorem findWord?_after {e : Ident} {word : String} (reserved : word ∈ headerWords)
    (isWord : isWord word.toList = true) (ends : EndsWord rest) :
    findWord? (e.val ++ ' ' :: (word.toList ++ rest)) word =
      some ⟨byteSize e.val + 1, byteSize e.val + 1 + byteSize word.toList⟩ := by
  have space : EndsWord (' ' :: (word.toList ++ rest)) := endsRun_cons rfl
  unfold findWord? topLevelTokens tokens
  rw [tokensFrom_word e.isWord space, tokensFrom_space, tokensFrom_word isWord ends,
    outermost_plain (.inl rfl), outermost_plain (.inl rfl), List.find?_cons_of_neg,
    List.find?_cons_of_pos]
  · simp [Token.span, Token.stop]
  · simp [Token.isWord, Token.text]
  · simpa [Token.isWord, Token.text] using e.ne_word reserved

/-- A reserved word does not occur in an identifier. -/
theorem findWord?_ident {e : Ident} {word : String}
    (reserved : word ∈ headerWords) : findWord? e.val word = none := by
  have whole := @tokensFrom_word 0 e.val [] e.isWord nofun
  rw [List.append_nil] at whole
  unfold findWord? topLevelTokens tokens
  rw [whole, outermost_plain (.inl rfl), List.find?_cons_of_neg]
  · simp [tokensFrom, outermost]
  · simpa [Token.isWord, Token.text] using e.ne_word reserved

/-- A part of a text that consists of three parts. -/
theorem text_middle (before middle after : List Char) :
    (Span.mk (byteSize before) (byteSize before + byteSize middle)).text
      (String.ofList (before ++ middle ++ after)) = String.ofList middle := by
  have slice : slice? (String.ofList (before ++ middle ++ after)) (byteSize before)
      (byteSize before + byteSize middle) = some (String.ofList middle) := by
    refine (slice?_eq_some_iff _ _ _ _).2 ⟨String.ofList before, String.ofList after, ?_, ?_, ?_⟩
    · rw [← String.ofList_append, ← String.ofList_append]
    · rw [utf8ByteSize_ofList]
    · rw [utf8ByteSize_ofList]
  unfold Span.text
  rw [slice]
  rfl

/-- The part between two offsets, without the white space around it. -/
theorem bare_slice? {header : Expression} {before middle after : List Char} {e : Ident}
    {start stop : Nat} (text : header.text = String.ofList (before ++ middle ++ after))
    (trimmed : trim middle = e.val) (starts : start = byteSize before)
    (stops : stop = byteSize before + byteSize middle) :
    (header.slice? start stop).map Expression.bare = some (Ident.expression e) := by
  subst starts stops
  unfold Expression.slice?
  rw [text, text_middle, String.toList_ofList]
  unfold Expression.ofText
  rw [trimmed]
  dsimp only
  rw [if_neg]
  · rfl
  · simp [Expression.isEmpty, e.ne_nil]

theorem byteSize_nil : byteSize [] = 0 := rfl

private theorem byteSize_space (cs : List Char) : byteSize (' ' :: cs) = 1 + byteSize cs := rfl

theorem byteSize_comma (cs : List Char) : byteSize (',' :: cs) = 1 + byteSize cs := rfl

theorem byteSize_openingParen (cs : List Char) : byteSize ('(' :: cs) = 1 + byteSize cs := rfl

theorem byteSize_closingParen (cs : List Char) : byteSize (')' :: cs) = 1 + byteSize cs := rfl

def bindingChars (context : Ident) (index : Option Ident) : List Char :=
  ' ' :: (context.val ++ renderOptional ", " index "")

def bindingTokens (offset : Nat) (context : Ident) : Option Ident → List Token
  | none => [⟨.ident, offset + 1, context.val⟩]
  | some index =>
    [⟨.ident, offset + 1, context.val⟩, ⟨.comma, offset + 1 + byteSize context.val, [',']⟩,
      ⟨.ident, offset + 1 + byteSize context.val + 1 + 1, index.val⟩]

variable {context : Ident} {index : Option Ident}

private theorem tokensFrom_binding (ends : EndsWord rest) :
    tokensFrom offset (bindingChars context index ++ rest) =
      bindingTokens offset context index ++
        tokensFrom (offset + byteSize (bindingChars context index)) rest := by
  cases index with
  | none =>
    have chars : bindingChars context none ++ rest = ' ' :: (context.val ++ rest) := by
      simp [bindingChars, renderOptional]
    have size : offset + 1 + byteSize context.val = offset + byteSize (bindingChars context none) := by
      rw [bindingChars, renderOptional, List.append_nil, byteSize_space]
      omega
    rw [chars, tokensFrom_space, tokensFrom_word context.isWord ends, size]
    rfl
  | some index =>
    have chars : bindingChars context (some index) ++ rest =
        ' ' :: (context.val ++ ',' :: ' ' :: (index.val ++ rest)) := by
      simp [bindingChars, renderOptional]
    have comma : EndsWord (',' :: ' ' :: (index.val ++ rest)) := endsRun_cons rfl
    have size : offset + 1 + byteSize context.val + ','.utf8Size + 1 + byteSize index.val =
        offset + byteSize (bindingChars context (some index)) := by
      rw [bindingChars, byteSize_space, byteSize_append]
      change offset + 1 + byteSize context.val + 1 + 1 + byteSize index.val = offset + (1 +
        (byteSize context.val + byteSize (',' :: ' ' :: (index.val ++ []))))
      rw [byteSize_comma, byteSize_space, List.append_nil]
      omega
    rw [chars, tokensFrom_space, tokensFrom_word context.isWord comma, tokensFrom_mark lexeme_comma,
      tokensFrom_space, tokensFrom_word index.isWord ends, size]
    rfl

private theorem outermost_binding (ts : List Token) :
    outermost 0 (bindingTokens offset context index ++ ts) =
      bindingTokens offset context index ++ outermost 0 ts := by
  cases index with
  | none => exact outermost_plain (.inl rfl)
  | some index =>
    change outermost 0 (_ :: _ :: _ :: ts) = _
    rw [outermost_plain (.inl rfl), outermost_plain (.inr rfl), outermost_plain (.inl rfl)]
    rfl

/-- The comma of a binding is found where there is an index. -/
theorem findComma?_binding {trail : List Char} (blank : trail = [] ∨ trail = [' ']) :
    findComma? (bindingChars context index ++ trail) =
      index.map fun _ => 1 + byteSize context.val := by
  have ends : EndsWord trail := by
    rcases blank with rfl | rfl
    · exact nofun
    · exact endsRun_cons rfl
  have nothing (offset : Nat) : tokensFrom offset trail = [] := by
    rcases blank with rfl | rfl
    · rw [tokensFrom]
    · rw [tokensFrom_space, tokensFrom]
  unfold findComma? topLevelTokens tokens
  rw [tokensFrom_binding ends, nothing, outermost_binding]
  cases index with
  | none => simp [bindingTokens, outermost]
  | some index => simp [bindingTokens, outermost]

private theorem bare_splitBinding {header : Expression} {before trail after : List Char}
    (text : header.text =
      String.ofList (before ++ (bindingChars context index ++ trail) ++ after))
    (blank : trail = [] ∨ trail = [' ']) {start stop : Nat} (starts : start = byteSize before)
    (stops : stop = byteSize before + byteSize (bindingChars context index ++ trail)) :
    (splitBinding header start stop).1.map Expression.bare = some (Ident.expression context) ∧
      (splitBinding header start stop).2.map Expression.bare = index.map Ident.expression := by
  have trailBlank : ∀ c ∈ trail, isBlank c = true := by
    rcases blank with rfl | rfl
    · exact nofun
    · exact isBlank_space
  have around (e : Ident) : trim ([' '] ++ e.val ++ trail) = e.val :=
    trim_ident isBlank_space trailBlank
  have binding := text_middle before (bindingChars context index ++ trail) after
  unfold splitBinding
  rw [text, starts, stops, binding, String.toList_ofList, findComma?_binding blank]
  cases index with
  | none =>
    dsimp only [Option.map_none]
    refine ⟨?_, rfl⟩
    have whole : bindingChars context none ++ trail = [' '] ++ context.val ++ trail := by
      rw [bindingChars, renderOptional, List.append_nil]
      rfl
    exact bare_slice? text (whole ▸ around context) rfl rfl
  | some index =>
    dsimp only [Option.map_some]
    have whole : bindingChars context (some index) ++ trail =
        ([' '] ++ context.val ++ []) ++ ',' :: ([' '] ++ index.val ++ trail) := by
      simp [bindingChars, renderOptional]
    have first : header.text = String.ofList
        (before ++ ([' '] ++ context.val) ++ (',' :: ([' '] ++ index.val ++ trail) ++ after)) := by
      rw [text, whole]
      simp
    have second : header.text = String.ofList
        (before ++ [' '] ++ context.val ++ [','] ++ ([' '] ++ index.val ++ trail) ++ after) := by
      rw [text, whole]
      simp
    have trimmed : trim ([' '] ++ context.val) = context.val := by
      have whole := @trim_ident context [' '] [] isBlank_space nofun
      rwa [List.append_nil] at whole
    refine ⟨bare_slice? first trimmed rfl ?_, bare_slice? second (around index) ?_ ?_⟩
    · rfl
    · simp only [byteSize_append, byteSize_comma, byteSize_space, byteSize_nil]
      omega
    · rw [whole]
      simp only [byteSize_append, byteSize_comma, byteSize_space, byteSize_nil]
      omega

variable {key : Option Ident}

/-- A binding does not end with a closing parenthesis. -/
theorem trailingGroup?_binding : trailingGroup? (bindingChars context index) = none := by
  have tokens : topLevelTokens (bindingChars context index) = bindingTokens 0 context index := by
    have whole := @tokensFrom_binding 0 [] context index nofun
    rw [List.append_nil, tokensFrom, List.append_nil] at whole
    have outer := @outermost_binding 0 context index []
    rw [List.append_nil, outermost, List.append_nil] at outer
    rw [topLevelTokens, Markup.tokens, whole, outer]
  unfold trailingGroup?
  rw [tokens]
  cases index with
  | none => simp [bindingTokens]
  | some index => simp [bindingTokens]

/-- A key in parentheses is found at the end. -/
theorem trailingGroup?_key {key : Ident} :
    trailingGroup? (bindingChars context index ++ renderOptional " (" (some key) ")") =
      some ⟨byteSize (bindingChars context index) + 1,
        byteSize (bindingChars context index) + 1 + 1 + byteSize key.val + 1⟩ := by
  have chars : bindingChars context index ++ renderOptional " (" (some key) ")" =
      bindingChars context index ++ ' ' :: '(' :: (key.val ++ [')']) := by
    simp [renderOptional]
  have space : EndsWord (' ' :: '(' :: (key.val ++ [')'])) := endsRun_cons rfl
  have closes : EndsWord [')'] := endsRun_cons rfl
  rw [chars]
  generalize size : byteSize (bindingChars context index) = n
  have top : topLevelTokens (bindingChars context index ++ ' ' :: '(' :: (key.val ++ [')'])) =
      bindingTokens 0 context index ++ [⟨.opening .paren, n + 1, ['(']⟩,
        ⟨.closing .paren, n + 1 + 1 + byteSize key.val, [')']⟩] := by
    rw [topLevelTokens, tokens, tokensFrom_binding space, tokensFrom_space,
      tokensFrom_mark lexeme_openingParen, tokensFrom_word key.isWord closes,
      tokensFrom_mark lexeme_closingParen, tokensFrom, outermost_binding, Nat.zero_add, size]
    rfl
  have trimmed : trimEnd (bindingChars context index ++ ' ' :: '(' :: (key.val ++ [')'])) =
      bindingChars context index ++ ' ' :: '(' :: (key.val ++ [')']) := by
    have last : bindingChars context index ++ ' ' :: '(' :: (key.val ++ [')']) =
        bindingChars context index ++ ' ' :: '(' :: key.val ++ [')'] := by simp
    rw [last]
    apply trimEnd_of_last
    rw [List.getLast?_concat]
    rintro _ ⟨⟩
    decide
  have bytes : byteSize (bindingChars context index ++ ' ' :: '(' :: (key.val ++ [')'])) =
      n + 1 + 1 + byteSize key.val + 1 := by
    rw [byteSize_append, size, byteSize_space, byteSize_openingParen, byteSize_append,
      byteSize_closingParen, byteSize_nil]
    omega
  have stop (m : Nat) : (Token.mk (.closing .paren) m [')']).stop = m + 1 := rfl
  unfold trailingGroup?
  rw [top, trimmed, bytes, List.reverse_append]
  simp [stop]

private theorem bare_getD {found : Option Expression} {default : Expression} {e : Ident}
    (bare : found.map Expression.bare = some (Ident.expression e)) :
    (found.getD default).bare = Ident.expression e := by
  obtain ⟨part, rfl, same⟩ := Option.map_eq_some_iff.1 bare
  exact same

variable {items : Ident} {header : Expression} {behind : List Char}

/-- The word `as` is found behind the items. -/
theorem findWord?_as (ends : EndsWord behind) :
    findWord? (items.val ++ " as".toList ++ behind) "as" =
      some ⟨byteSize items.val + 1, byteSize (items.val ++ " as".toList)⟩ := by
  have found := @findWord?_after behind items "as" (by decide) (by decide) ends
  have chars : items.val ++ " as".toList ++ behind = items.val ++ ' ' :: ("as".toList ++ behind) := by
    simp
  have stop : byteSize items.val + 1 + byteSize "as".toList =
      byteSize (items.val ++ " as".toList) := by
    rw [byteSize_append]
    rfl
  rw [chars, found, stop]

/-- The items stand before the word `as`. -/
theorem bare_items (text : header.text = String.ofList (items.val ++ " as".toList ++ behind)) :
    (header.slice? 0 (byteSize items.val + 1)).map Expression.bare =
      some (Ident.expression items) := by
  have parts : header.text =
      String.ofList ([] ++ ([] ++ items.val ++ [' ']) ++ ("as".toList ++ behind)) := by
    rw [text]
    simp
  refine bare_slice? parts (trim_ident nofun isBlank_space) rfl ?_
  simp only [List.nil_append, byteSize_append, byteSize_space, byteSize_nil]
  omega

/-- The header of an `{#each}` block is split into the identifiers that it was rendered from. -/
theorem bare_eachHeader
    (text : header.text = String.ofList (renderEachHeader items context index key)) :
    (EachHeader.split header).expression.bare = Ident.expression items ∧
      (EachHeader.split header).context.map Expression.bare = some (Ident.expression context) ∧
      (EachHeader.split header).index.map Expression.bare = index.map Ident.expression ∧
      (EachHeader.split header).key.map Expression.bare = key.map Ident.expression := by
  generalize keyChars : renderOptional " (" key ")" = behind
  have whole : renderEachHeader items context index key =
      items.val ++ " as".toList ++ (bindingChars context index ++ behind) := by
    simp [renderEachHeader, bindingChars, ← keyChars]
  rw [whole] at text
  have ends : EndsWord (bindingChars context index ++ behind) := endsRun_cons rfl
  have word := @findWord?_as items _ ends
  have chars : header.chars = items.val ++ " as".toList ++ (bindingChars context index ++ behind) := by
    rw [Expression.chars, text, String.toList_ofList]
  rw [← chars] at word
  have size : header.text.utf8ByteSize = byteSize (items.val ++ " as".toList) +
      byteSize (bindingChars context index ++ behind) := by
    rw [text, utf8ByteSize_ofList, byteSize_append]
  have after := text_middle (items.val ++ " as".toList) (bindingChars context index ++ behind) []
  rw [List.append_nil, ← text, ← size] at after
  have expression := bare_items text
  generalize items.val ++ " as".toList = lead at text word size after
  unfold EachHeader.split
  rw [word]
  dsimp only
  rw [after, String.toList_ofList]
  cases key with
  | none =>
    -- the binding reaches to the end of the header
    have nothing : behind = [] := keyChars.symm
    rw [nothing, List.append_nil] at text size ⊢
    rw [trailingGroup?_binding]
    dsimp only
    have parts : header.text = String.ofList (lead ++ (bindingChars context index ++ []) ++ []) := by
      rw [text]
      simp
    have stop : header.text.utf8ByteSize =
        byteSize lead + byteSize (bindingChars context index ++ []) := by
      rw [size, List.append_nil]
    have binding := bare_splitBinding parts (.inl rfl) rfl stop
    exact ⟨bare_getD expression, binding.1, binding.2, rfl⟩
  | some key =>
    -- the binding ends before the parenthesis, with a space at its end
    have group : behind = ' ' :: '(' :: (key.val ++ [')']) := by
      rw [← keyChars]
      simp [renderOptional]
    rw [← keyChars, trailingGroup?_key]
    dsimp only
    have parts : header.text = String.ofList (lead ++ (bindingChars context index ++ [' ']) ++
        '(' :: (key.val ++ [')'])) := by
      rw [text, group]
      simp
    have keyParts : header.text = String.ofList (lead ++ bindingChars context index ++ [' ', '('] ++
        key.val ++ [')']) := by
      rw [text, group]
      simp
    have stop : byteSize lead + (byteSize (bindingChars context index) + 1) =
        byteSize lead + byteSize (bindingChars context index ++ [' ']) := by
      rw [byteSize_append]
      rfl
    have binding := bare_splitBinding parts (.inr rfl) rfl stop
    refine ⟨bare_getD expression, binding.1, binding.2,
      bare_slice? keyParts (trim_val key) ?_ ?_⟩
    · simp only [byteSize_append, byteSize_space, byteSize_openingParen, byteSize_nil]
      omega
    · simp only [byteSize_append, byteSize_space, byteSize_openingParen, byteSize_nil]
      omega

theorem isHeaderChar_ident {e : Ident} : ∀ d ∈ e.val, isHeaderChar d = true := by
  obtain ⟨c, cs, _, _, chars⟩ := isWord_iff.1 e.isWord
  exact fun d member => by simp [isHeaderChar, chars d member]

theorem isHeaderChar_optional {before behind : String} {e : Option Ident}
    (plainBefore : ∀ d ∈ before.toList, isHeaderChar d = true)
    (plainBehind : ∀ d ∈ behind.toList, isHeaderChar d = true) :
    ∀ d ∈ renderOptional before e behind, isHeaderChar d = true := by
  cases e with
  | none => exact nofun
  | some e =>
    intro d member
    simp only [renderOptional, List.mem_append] at member
    rcases member with (inBefore | inside) | inBehind
    · exact plainBefore d inBefore
    · exact isHeaderChar_ident d inside
    · exact plainBehind d inBehind

theorem isHeaderChar_eachHeader :
    ∀ d ∈ renderEachHeader items context index key, isHeaderChar d = true := by
  intro d member
  simp only [renderEachHeader, List.mem_append] at member
  rcases member with (((inItems | inWord) | inContext) | inIndex) | inKey
  · exact isHeaderChar_ident d inItems
  · exact List.all_eq_true.1 (by decide : " as ".toList.all isHeaderChar = true) d inWord
  · exact isHeaderChar_ident d inContext
  · exact isHeaderChar_optional (List.all_eq_true.1 (by decide)) (List.all_eq_true.1 (by decide)) d
      inIndex
  · exact isHeaderChar_optional (List.all_eq_true.1 (by decide)) (List.all_eq_true.1 (by decide)) d
      inKey

/-- A text between two trimmed ones is trimmed with them. -/
theorem trimmed_between {first middle last : List Char} (firstTrimmed : Trimmed first)
    (lastTrimmed : Trimmed last) (firstFilled : first ≠ []) (lastFilled : last ≠ []) :
    Trimmed (first ++ middle ++ last) := by
  constructor
  · rw [List.append_assoc, List.head?_append, List.head?_eq_some_head firstFilled, Option.some_or,
      ← List.head?_eq_some_head firstFilled]
    exact firstTrimmed.1
  · rw [List.getLast?_append, List.getLast?_eq_some_getLast lastFilled, Option.some_or,
      ← List.getLast?_eq_some_getLast lastFilled]
    exact lastTrimmed.2

theorem trimmed_eachHeader : Trimmed (renderEachHeader items context index key) := by
  have ident (e : Ident) := trimmed_of_isWord e.isWord
  have upTo (middle : List Char) (e : Ident) : Trimmed (items.val ++ middle ++ e.val) :=
    trimmed_between (ident items) (ident e) items.ne_nil e.ne_nil
  cases key with
  | none =>
    cases index with
    | none => simpa [renderEachHeader, renderOptional] using upTo " as ".toList context
    | some index =>
      simpa [renderEachHeader, renderOptional] using
        upTo (" as ".toList ++ context.val ++ ", ".toList) index
  | some key =>
    have closing : Trimmed [')'] := by
      constructor
      · rintro c ⟨⟩
        decide
      · rintro c ⟨⟩
        decide
    have whole := @trimmed_between items.val
      (" as ".toList ++ context.val ++ renderOptional ", " index "" ++ " (".toList ++ key.val) _
      (ident items) closing items.ne_nil (List.cons_ne_nil _ _)
    simpa [renderEachHeader, renderOptional] using whole
theorem isHeaderChar_elseIf {e : Ident} : ∀ d ∈ "if ".toList ++ e.val, isHeaderChar d = true := by
  intro d member
  rcases List.mem_append.1 member with inWord | inIdent
  · exact List.all_eq_true.1 (by decide : "if ".toList.all isHeaderChar = true) d inWord
  · exact isHeaderChar_ident d inIdent

theorem trimmed_elseIf {e : Ident} : Trimmed ("if ".toList ++ e.val) :=
  @trimmed_between "if".toList [' '] e.val (trimmed_of_isWord (by decide))
    (trimmed_of_isWord e.isWord) (by decide) e.ne_nil

/-- An identifier as the header of an `{#await}` block is its subject. -/
theorem awaitHeader_ident {e : Ident} {header : Expression}
    (text : header.text = String.ofList e.val) : AwaitHeader.split header = ⟨header, none⟩ := by
  have chars : header.chars = e.val := by rw [Expression.chars, text, String.toList_ofList]
  unfold AwaitHeader.split
  rw [chars]
  have noThen : findWord? e.val AwaitBranch.then_.word = none := findWord?_ident (by decide)
  have noCatch : findWord? e.val AwaitBranch.catch_.word = none := findWord?_ident (by decide)
  dsimp only
  rw [noThen, noCatch]
  rfl

/-- The condition after `else if` is what follows the word. -/
theorem bare_elseIf {e : Ident} {rest : Expression}
    (text : rest.text = String.ofList ("if ".toList ++ e.val)) :
    (elseIfCondition? rest).map Expression.bare = some (Ident.expression e) := by
  have ends : EndsWord (' ' :: e.val) := endsRun_cons rfl
  have found := @findWord?_head (' ' :: e.val) "if" (by decide) ends
  have chars : rest.chars = "if".toList ++ ' ' :: e.val :=
    (congrArg String.toList text).trans String.toList_ofList
  have parts : rest.text = String.ofList ("if".toList ++ ([' '] ++ e.val ++ []) ++ []) := by
    rw [text]
    simp
  unfold elseIfCondition?
  rw [chars, found]
  dsimp only
  rw [if_pos (by decide)]
  have stop : rest.text.utf8ByteSize =
      byteSize "if".toList + byteSize ([' '] ++ e.val ++ []) := by
    rw [parts, utf8ByteSize_ofList, List.append_nil, byteSize_append]
  exact bare_slice? parts (trim_ident isBlank_space nofun) rfl stop

end TypedSvelte.Markup
