import Mathlib.Data.List.TakeWhile
import Mathlib.Tactic.ByContra
import TypedSvelte.Proofs.Markup.PlainHeaders
import TypedSvelte.Proofs.Markup.Safety

/-!
# Texts that are lexed one behind the other

A text is open-ended if it begins a string, a template literal or a comment that it does not end.
Behind a text that is not, a closing text is lexed as if it stood alone (`Kept.tokensFrom_append`).
An open-ended text takes the closing text in (`not_start_of_openEnded`). A text that is sealed is
lexed in the same way whatever follows it.
-/
namespace TypedSvelte.Markup

variable {c : Char} {text rest after plain later : List Char}

/-- The character is a piece of its own, whatever follows it. -/
def isSingle (c : Char) : Bool :=
  !(isIdentStart c || c.isDigit || c == '"' || c == '\'' || c == '`' || c == '/')

/-- The character ends no string, template literal or comment, and takes no other character with
it. -/
def isPlain (c : Char) : Bool := !("\"'`/\\$\n".toList.contains c)

/-- The character ends words and numbers, and makes no comment of a slash before it. -/
def isMild (c : Char) : Bool := !(isIdentChar c || isNumberChar c || c == '/' || c == '*')

/-- The text begins with a mild character, if it is not empty. -/
def Mild (text : List Char) : Prop := ∀ d, text.head? = some d → isMild d = true

/-- A closed comment ends where it ends. -/
theorem blockCommentReach_append (ended : (blockCommentReach text).complete = true) :
    blockCommentReach (text ++ after) = blockCommentReach text := by
  unfold blockCommentReach at ended ⊢
  cases found : findText? ['*', '/'] text with
  | none =>
    rw [found] at ended
    cases ended
  | some n => rw [findText?_append found]

/-- A closed string ends where it ends, and so does one that its line ends. -/
theorem quotedReach_append {quote : Char} (isQuote : quote ≠ '\\')
    (ended : quotedReach quote text ≠ ⟨text.length, false⟩) :
    quotedReach quote (text ++ after) = quotedReach quote text := by
  fun_induction quotedReach quote text with
  | case1 => exact absurd rfl ended
  | case2 c newline =>
    cases eq_of_beq newline
    cases after <;> rfl
  | case3 c notNewline =>
    have closes : c = quote := Decidable.byContradiction fun other => ended (by simp [other])
    subst closes
    cases after with
    | nil => simp [quotedReach, notNewline]
    | cons d later => simp [quotedReach, notNewline, isQuote]
  | case4 c d rest backslash ih =>
    have inner := ih fun unended => ended (by simp [unended, Reach.add])
    simp [quotedReach, backslash, inner]
  | case5 c d rest notBackslash newline => simp [quotedReach, notBackslash, newline]
  | case6 c d rest notBackslash notNewline closes =>
    simp [quotedReach, notBackslash, notNewline, closes]
  | case7 c d rest notBackslash notNewline notClosing ih =>
    have inner := ih fun unended => ended (by simp [unended, Reach.add])
    rw [List.cons_append] at inner
    simp [quotedReach, notBackslash, notNewline, notClosing, inner]

/-- A template literal ends where it ends. -/
theorem templateReach_append {depth : Nat} (ended : (templateReach depth text).complete = true) :
    templateReach depth (text ++ after) = templateReach depth text := by
  fun_induction templateReach depth text with
  | case1 => cases ended
  | case2 depth c =>
    simp only [Bool.and_eq_true, beq_iff_eq] at ended
    obtain ⟨rfl, rfl⟩ := ended
    cases after <;> rfl
  | case3 depth c d rest backslash ih =>
    have inner := ih ended
    simp [templateReach, backslash, inner]
  | case4 depth c d rest notBackslash closes => simp [templateReach, notBackslash, closes]
  | case5 depth c d rest notBackslash notClosing opens ih =>
    have inner := ih ended
    simp [templateReach, notBackslash, notClosing, opens, inner]
  | case6 depth c d rest notBackslash notClosing notSubstitution opens ih =>
    have inner := ih ended
    rw [List.cons_append] at inner
    simp [templateReach, notBackslash, notClosing, notSubstitution, opens, inner]
  | case7 depth c d rest notBackslash notClosing notSubstitution notOpening closes ih =>
    have inner := ih ended
    rw [List.cons_append] at inner
    simp [templateReach, notBackslash, notClosing, notSubstitution, notOpening, closes, inner]
  | case8 depth c d rest notBackslash notClosing notSubstitution notOpening notClosingBrace ih =>
    have inner := ih ended
    rw [List.cons_append] at inner
    simp [templateReach, notBackslash, notClosing, notSubstitution, notOpening, notClosingBrace,
      inner]

private theorem isPlain_iff : isPlain c = true ↔
    c ≠ '"' ∧ c ≠ '\'' ∧ c ≠ '`' ∧ c ≠ '/' ∧ c ≠ '\\' ∧ c ≠ '$' ∧ c ≠ '\n' := by
  simp [isPlain]

theorem Reach.add_add (r : Reach) (n m : Nat) : (r.add n).add m = r.add (n + m) :=
  congrArg (Reach.mk · r.complete) (Nat.add_assoc ..)

private theorem Reach.of_add {r : Reach} {n m : Nat} {complete : Bool}
    (same : r.add n = ⟨m + n, complete⟩) : r = ⟨m, complete⟩ := by
  cases r
  simpa [add] using same

private theorem length_quotedReach_cons {quote : Char} (isQuote : quote = '"' ∨ quote = '\'')
    (isPlain : isPlain c = true) :
    (quotedReach quote (c :: text)).length = (quotedReach quote text).length + 1 := by
  obtain ⟨double, single, _, _, backslash, _, newline⟩ := isPlain_iff.1 isPlain
  have notClosing : c ≠ quote := by
    rcases isQuote with rfl | rfl
    · exact double
    · exact single
  cases text with
  | nil => simp [quotedReach, newline]
  | cons d rest => simp [quotedReach, Reach.add, newline, backslash, notClosing]

private theorem le_length_quotedReach {quote : Char} (isQuote : quote = '"' ∨ quote = '\'')
    (arePlain : ∀ d ∈ plain, isPlain d = true) :
    plain.length ≤ (quotedReach quote (plain ++ later)).length := by
  induction plain with
  | nil => exact Nat.zero_le _
  | cons d rest ih =>
    obtain ⟨here, others⟩ := List.forall_mem_cons.1 arePlain
    rw [List.cons_append, length_quotedReach_cons isQuote here]
    exact Nat.succ_le_succ (ih others)

/-- A string that is not closed goes on over plain characters. -/
theorem quotedReach_takes {quote : Char} (isQuote : quote = '"' ∨ quote = '\'')
    (arePlain : ∀ d ∈ plain, isPlain d = true)
    (unended : quotedReach quote text = ⟨text.length, false⟩) :
    text.length + plain.length ≤ (quotedReach quote (text ++ (plain ++ later))).length := by
  fun_induction quotedReach quote text with
  | case1 =>
    rw [List.length_nil, Nat.zero_add]
    exact le_length_quotedReach isQuote arePlain
  | case2 => cases unended
  | case3 c notNewline =>
    have notClosing : (c == quote) = false := (Reach.mk.inj unended).2
    cases plain with
    | nil => cases later <;> simp [quotedReach, notNewline, notClosing, Reach.add]; split <;> simp
    | cons d ds =>
      have further := @le_length_quotedReach ds later quote isQuote
        (List.forall_mem_cons.1 arePlain).2
      have here := @length_quotedReach_cons d (ds ++ later) quote isQuote
        (List.forall_mem_cons.1 arePlain).1
      simp only [List.cons_append, List.nil_append, quotedReach, notNewline, notClosing, Reach.add]
      split <;> simp <;> omega
  | case4 c d rest backslash ih =>
    have inner := ih (Reach.of_add unended)
    simp only [List.cons_append, quotedReach, backslash, Reach.add, List.length_cons, if_true]
    omega
  | case5 => cases unended
  | case6 => cases unended
  | case7 c d rest notBackslash notNewline notClosing ih =>
    have inner := ih (Reach.of_add unended)
    rw [List.cons_append] at inner
    simp only [List.cons_append, quotedReach, notBackslash, notNewline, notClosing, Reach.add,
      List.length_cons] at inner ⊢
    simp only [Bool.false_eq_true, if_false]
    omega

private theorem length_templateReach_cons (depth : Nat) (isPlain : isPlain c = true) :
    ∃ inner, (templateReach depth (c :: text)).length = (templateReach inner text).length + 1 := by
  obtain ⟨_, _, backquote, _, backslash, dollar, _⟩ := isPlain_iff.1 isPlain
  cases text with
  | nil => exact ⟨depth, rfl⟩
  | cons d rest =>
    simp only [templateReach, Reach.add, beq_iff_eq, backslash, backquote, dollar, if_false,
      Bool.and_eq_true, false_and]
    by_cases opens : c = '{' ∧ (depth != 0) = true
    · exact ⟨depth + 1, by rw [if_pos opens]⟩
    by_cases closes : c = '}' ∧ (depth != 0) = true
    · exact ⟨depth - 1, by rw [if_neg opens, if_pos closes]⟩
    · exact ⟨depth, by rw [if_neg opens, if_neg closes]⟩

private theorem le_length_templateReach (depth : Nat) (arePlain : ∀ d ∈ plain, isPlain d = true) :
    plain.length ≤ (templateReach depth (plain ++ later)).length := by
  induction plain generalizing depth with
  | nil => exact Nat.zero_le _
  | cons d rest ih =>
    obtain ⟨here, others⟩ := List.forall_mem_cons.1 arePlain
    obtain ⟨inner, length⟩ := @length_templateReach_cons d (rest ++ later) depth here
    rw [List.cons_append, length]
    exact Nat.succ_le_succ (ih inner others)

private theorem le_length_templateReach_cons {depth : Nat} (arePlain : ∀ d ∈ plain, isPlain d = true)
    (notClosing : (c == '`' && depth == 0) = false) :
    plain.length + 1 ≤ (templateReach depth (c :: (plain ++ later))).length := by
  cases plain with
  | nil =>
    cases later with
    | nil => exact Nat.le_refl 1
    | cons d ds =>
      rw [List.nil_append, templateReach]
      simp only [notClosing]
      repeat' split
      all_goals simp [Reach.add]
  | cons d ds =>
    have others := (List.forall_mem_cons.1 arePlain).2
    have further inner := @le_length_templateReach ds later inner others
    have onward inner := @le_length_templateReach (d :: ds) later inner arePlain
    rw [List.cons_append] at onward
    rw [List.cons_append, templateReach]
    simp only [notClosing]
    split
    · exact Nat.add_le_add_right (further depth) 2
    split
    · contradiction
    split
    · exact Nat.add_le_add_right (further (depth + 1)) 2
    split
    · exact Nat.succ_le_succ (onward (depth + 1))
    split
    · exact Nat.succ_le_succ (onward (depth - 1))
    · exact Nat.succ_le_succ (onward depth)

/-- A template literal that is not closed goes on over plain characters. -/
theorem templateReach_takes {depth : Nat} (arePlain : ∀ d ∈ plain, isPlain d = true)
    (unended : (templateReach depth text).complete = false) :
    text.length + plain.length ≤ (templateReach depth (text ++ (plain ++ later))).length := by
  fun_induction templateReach depth text with
  | case1 depth =>
    rw [List.length_nil, Nat.zero_add]
    exact le_length_templateReach depth arePlain
  | case2 depth c =>
    rw [List.length_singleton, Nat.add_comm]
    exact le_length_templateReach_cons arePlain unended
  | case3 depth c d rest backslash ih =>
    have inner := ih unended
    simp only [List.cons_append, templateReach, backslash, if_true, Reach.add, List.length_cons]
    omega
  | case4 => cases unended
  | case5 depth c d rest notBackslash notClosing opens ih =>
    have inner := ih unended
    simp only [List.cons_append, templateReach, notBackslash, notClosing, opens, if_true,
      Bool.false_eq_true, if_false, Reach.add, List.length_cons]
    omega
  | case6 depth c d rest notBackslash notClosing notSubstitution opens ih =>
    have inner := ih unended
    simp only [List.cons_append, templateReach, notBackslash, notClosing, notSubstitution, opens,
      if_true, Bool.false_eq_true, if_false, Reach.add, List.length_cons] at inner ⊢
    omega
  | case7 depth c d rest notBackslash notClosing notSubstitution notOpening closes ih =>
    have inner := ih unended
    simp only [List.cons_append, templateReach, notBackslash, notClosing, notSubstitution,
      notOpening, closes, if_true, Bool.false_eq_true, if_false, Reach.add, List.length_cons]
      at inner ⊢
    omega
  | case8 depth c d rest notBackslash notClosing notSubstitution notOpening notClosingBrace ih =>
    have inner := ih unended
    simp only [List.cons_append, templateReach, notBackslash, notClosing, notSubstitution,
      notOpening, notClosingBrace, Bool.false_eq_true, if_false, Reach.add, List.length_cons]
      at inner ⊢
    omega

/-- A comment that is not closed goes on over plain characters. -/
theorem blockCommentReach_takes (arePlain : ∀ d ∈ plain, isPlain d = true)
    (unended : (blockCommentReach text).complete = false) :
    text.length + plain.length ≤ (blockCommentReach (text ++ (plain ++ later))).length := by
  unfold blockCommentReach at unended ⊢
  cases found : findText? ['*', '/'] (text ++ (plain ++ later)) with
  | none =>
    dsimp only
    simp only [List.length_append]
    omega
  | some n =>
    dsimp only
    by_contra! before
    have mark := findText?_spec found
    have slash : (text ++ (plain ++ later))[n + 1]? = some '/' := by
      obtain ⟨rest, ahead⟩ := mark
      have second := congrArg (·[1]?) ahead
      simpa [Nat.add_comm] using second.symm
    by_cases inText : n + 1 < text.length
    · have begins : ['*', '/'] <+: text.drop n := by
        rw [List.drop_append_of_le_length (by omega)] at mark
        exact List.prefix_of_prefix_length_le mark ⟨_, rfl⟩ (by simp; omega)
      have isSome := isSome_findText? begins
      split at unended
      · cases unended
      · rename_i absent
        rw [absent] at isSome
        cases isSome
    · have inPlain : n + 1 - text.length < plain.length := by omega
      rw [List.getElem?_append_right (by omega), List.getElem?_append_left inPlain] at slash
      have slashPlain := arePlain '/' (List.mem_of_getElem? slash)
      cases slashPlain

/-- The piece that begins with `c` is a string, a template literal or a comment that the text ends,
and not a mark or a line of its own. -/
def unfinished (c : Char) (rest : List Char) : Bool :=
  if c == '"' || c == '\'' then quotedReach c rest == ⟨rest.length, false⟩
  else if c == '`' then !(templateReach 0 rest).complete
  else if c == '/' && rest.head? == some '/' then !rest.contains '\n'
  else if c == '/' && rest.head? == some '*' then !(blockCommentReach rest.tail).complete
  else false

/-- How a piece is read is known from its first character. -/
inductive Leads (c : Char) : Prop
  | single (read : ∀ rest, lexeme c rest = lexeme c [])
      (finished : ∀ rest, unfinished c rest = false)
  | run (joins : isSingle c = false) (kind : TokenKind) (p : Char → Bool)
      (ends : ∀ d, isMild d = true → p d = false)
      (read : ∀ rest, lexeme c rest = (some kind, (rest.takeWhile p).length))
      (finished : ∀ rest, unfinished c rest = false)
      (joined : kind = .ident ∨ kind = .number)
  | quote (isQuote : c = '"' ∨ c = '\'')
  | backquote (isBackquote : c = '`')
  | slash (isSlash : c = '/')

theorem isMild_iff : isMild c = true ↔
    isIdentChar c = false ∧ isNumberChar c = false ∧ c ≠ '/' ∧ c ≠ '*' := by
  simp only [isMild, Bool.not_eq_true', Bool.or_eq_false_iff, beq_eq_false_iff_ne, and_assoc]

theorem leads (c : Char) : Leads c := by
  by_cases quote : c = '"' ∨ c = '\''
  · exact .quote quote
  by_cases backquote : c = '`'
  · exact .backquote backquote
  by_cases slash : c = '/'
  · exact .slash slash
  obtain ⟨double, single⟩ := not_or.1 quote
  have finished : ∀ rest, unfinished c rest = false := by
    intro rest
    simp [unfinished, double, single, backquote, slash]
  by_cases start : isIdentStart c = true
  · have joins : isSingle c = false := by simp [isSingle, start]
    exact .run joins .ident isIdentChar (fun d mild => (isMild_iff.1 mild).1)
      (fun rest => lexeme_word start) finished (.inl rfl)
  by_cases digit : c.isDigit = true
  · have joins : isSingle c = false := by simp [isSingle, digit]
    refine .run joins .number isNumberChar (fun d mild => (isMild_iff.1 mild).2.1) ?_ finished
      (.inr rfl)
    intro rest
    have ident : isIdentChar c = true := by simp [isIdentChar, Char.isAlphanum, digit]
    unfold lexeme
    rw [if_neg (by simp [isSpace_of_isIdentChar ident]), if_neg start, if_pos digit]
  · refine .single (fun rest => ?_) finished
    simp [lexeme, double, single, backquote, slash, start, digit]

theorem lexeme_quote (isQuote : c = '"' ∨ c = '\'') : lexeme c rest =
    (if (quotedReach c rest).complete then some .string else none,
      (quotedReach c rest).length) := by
  rcases isQuote with rfl | rfl <;> rfl

theorem lexeme_backquote : lexeme '`' rest =
    (if (templateReach 0 rest).complete then some .template else none,
      (templateReach 0 rest).length) := rfl

theorem lexeme_line : lexeme '/' ('/' :: rest) =
    (some .comment, 1 + (rest.takeWhile (· != '\n')).length) := rfl

theorem lexeme_block : lexeme '/' ('*' :: rest) =
    (if (blockCommentReach rest).complete then some .comment else none,
      (blockCommentReach rest).length + 1) := rfl

/-- A slash that begins no comment. -/
theorem lexeme_slash (alone : ∀ d, rest.head? = some d → d ≠ '/' ∧ d ≠ '*') :
    lexeme '/' rest = (some .punct, 0) := by
  cases rest with
  | nil => rfl
  | cons d tail =>
    obtain ⟨slash, star⟩ := alone d rfl
    simp [lexeme, slash, star]
    rfl

theorem length_takeWhile_lt {p : Char → Bool} (member : c ∈ text) (other : p c = false) :
    (text.takeWhile p).length < text.length := by
  apply Nat.lt_of_le_of_ne (List.takeWhile_prefix p).length_le
  intro whole
  have all := (List.takeWhile_prefix p).eq_of_length whole
  have holds := List.takeWhile_eq_self_iff.1 all c member
  rw [other] at holds
  cases holds

/-- A run of characters that ends inside the text, or before a character that does not belong to
it, is the same with more behind it. -/
theorem takeWhile_append_ended {p : Char → Bool}
    (ended : (text.takeWhile p).length < text.length ∨ EndsRun p after) :
    (text ++ after).takeWhile p = text.takeWhile p := by
  rw [List.takeWhile_append]
  split
  · rename_i whole
    have ends := ended.resolve_left (by rw [whole]; exact Nat.lt_irrefl _)
    have nothing : after.takeWhile p = [] := @takeWhile_until p [] after nofun ends
    rw [nothing, List.append_nil]
    exact ((List.takeWhile_prefix p).eq_of_length whole).symm
  · rfl

/-- The text begins no comment behind a slash. -/
def Slashless (text : List Char) : Prop := ∀ d, text.head? = some d → d ≠ '/' ∧ d ≠ '*'

theorem Mild.slashless (mild : Mild text) : Slashless text :=
  fun d first => (isMild_iff.1 (mild d first)).2.2

/-- A piece that is finished is the same with more behind it, if it stands alone, ends inside the
text, or ends before a character that makes no comment of a slash, a mild one behind words and
numbers. -/
theorem lexeme_append_of_joined (finished : unfinished c rest = false)
    (ended : isSingle c = true ∨ (lexeme c rest).2 < rest.length ∨
      (Slashless after ∧
        ((lexeme c rest).1 = some .ident ∨ (lexeme c rest).1 = some .number → Mild after))) :
    lexeme c (rest ++ after) = lexeme c rest := by
  cases leads c with
  | single read _ => rw [read, read rest]
  | run joins kind p ends read _ joined =>
    rw [read] at ended
    rw [joins] at ended
    rw [read, read, takeWhile_append_ended]
    refine (ended.resolve_left nofun).imp_right fun mild d first => ends d (mild.2 ?_ d first)
    exact joined.imp (congrArg some) (congrArg some)
  | quote isQuote =>
    have ends : quotedReach c rest ≠ ⟨rest.length, false⟩ := by
      rcases isQuote with rfl | rfl <;> simpa [unfinished] using finished
    have backslash : c ≠ '\\' := by rcases isQuote with rfl | rfl <;> decide
    rw [lexeme_quote isQuote, lexeme_quote isQuote, quotedReach_append backslash ends]
  | backquote isBackquote =>
    subst isBackquote
    have ends : (templateReach 0 rest).complete = true := by simpa [unfinished] using finished
    rw [lexeme_backquote, lexeme_backquote, templateReach_append ends]
  | slash isSlash =>
    subst isSlash
    cases rest with
    | nil =>
      have apart := (ended.resolve_left nofun).resolve_left (Nat.not_lt_zero _)
      rw [List.nil_append, lexeme_slash apart.1]
      rfl
    | cons d tail =>
      by_cases line : d = '/'
      · subst line
        have newline : '\n' ∈ tail := by simpa [unfinished] using finished
        rw [List.cons_append, lexeme_line, lexeme_line,
          takeWhile_append_ended (.inl (length_takeWhile_lt newline rfl))]
      by_cases block : d = '*'
      · subst block
        have ends : (blockCommentReach tail).complete = true := by simpa [unfinished] using finished
        rw [List.cons_append, lexeme_block, lexeme_block, blockCommentReach_append ends]
      · have alone (others : List Char) :
            ∀ e, (d :: others).head? = some e → e ≠ '/' ∧ e ≠ '*' := by
          rintro e ⟨⟩
          exact ⟨line, block⟩
        rw [List.cons_append, lexeme_slash (alone _), lexeme_slash (alone _)]

/-- A piece that is finished is the same with more behind it, if it stands alone, ends inside the
text or before a mild character. -/
theorem lexeme_append (finished : unfinished c rest = false)
    (ended : isSingle c = true ∨ (lexeme c rest).2 < rest.length ∨ Mild after) :
    lexeme c (rest ++ after) = lexeme c rest :=
  lexeme_append_of_joined finished
    (ended.imp_right fun ended => ended.imp_right fun mild => ⟨mild.slashless, fun _ => mild⟩)

/-- A piece that is not finished takes in plain characters behind it. -/
theorem lexeme_takes (unended : unfinished c rest = true)
    (arePlain : ∀ d ∈ plain, isPlain d = true) :
    rest.length + plain.length ≤ (lexeme c (rest ++ (plain ++ later))).2 := by
  cases leads c with
  | single _ finished | run _ _ _ _ _ finished =>
    rw [finished] at unended
    cases unended
  | quote isQuote =>
    have goesOn : quotedReach c rest = ⟨rest.length, false⟩ := by
      rcases isQuote with rfl | rfl <;> simpa [unfinished] using unended
    rw [lexeme_quote isQuote]
    exact quotedReach_takes isQuote arePlain goesOn
  | backquote isBackquote =>
    subst isBackquote
    have goesOn : (templateReach 0 rest).complete = false := by simpa [unfinished] using unended
    rw [lexeme_backquote]
    exact templateReach_takes arePlain goesOn
  | slash isSlash =>
    subst isSlash
    cases rest with
    | nil => cases unended
    | cons d tail =>
      rw [List.cons_append, List.length_cons]
      by_cases line : d = '/'
      · subst line
        have onLine : ∀ e ∈ tail ++ plain, (e != '\n') = true := by
          intro e member
          rw [bne_iff_ne]
          rintro rfl
          rcases List.mem_append.1 member with inTail | inPlain
          · simp [unfinished, inTail] at unended
          · cases arePlain '\n' inPlain
        rw [lexeme_line, ← List.append_assoc, List.takeWhile_append_of_pos onLine]
        simp only [List.length_append]
        omega
      by_cases block : d = '*'
      · subst block
        have goesOn : (blockCommentReach tail).complete = false := by
          simpa [unfinished] using unended
        have taken := @blockCommentReach_takes tail plain later arePlain goesOn
        rw [lexeme_block]
        dsimp only
        omega
      · simp [unfinished, line, block] at unended

/-- A string, a template literal or a comment of the text is ended only by the end of the text. -/
def openEnded : List Char → Bool
  | [] => false
  | c :: rest => unfinished c rest || openEnded (rest.drop (lexeme c rest).2)
  termination_by text => text.length
  decreasing_by simp only [List.length_drop, List.length_cons]; omega

/-- Every piece of the text is finished inside of it or stands alone, so that nothing that follows
the text can belong to one. -/
def isSealed : List Char → Bool
  | [] => true
  | c :: rest =>
    !unfinished c rest && (isSingle c || decide ((lexeme c rest).2 < rest.length))
      && isSealed (rest.drop (lexeme c rest).2)
  termination_by text => text.length
  decreasing_by simp only [List.length_drop, List.length_cons]; omega

/-- The pieces of a text are the same with `after` behind it. -/
inductive Kept (after : List Char) : List Char → Prop
  | nil : Kept after []
  | cons {c : Char} {rest : List Char} (same : lexeme c (rest ++ after) = lexeme c rest)
      (others : Kept after (rest.drop (lexeme c rest).2)) : Kept after (c :: rest)

/-- What follows a text that is not open-ended begins a token of its own, if it begins with a mild
character. -/
theorem kept_of_mild (closed : openEnded text = false) (mild : Mild after) : Kept after text := by
  fun_induction openEnded text with
  | case1 => exact .nil
  | case2 c rest ih =>
    obtain ⟨finished, others⟩ := Bool.or_eq_false_iff.1 closed
    exact .cons (lexeme_append finished (.inr (.inr mild))) (ih others)

theorem kept_of_sealed (isSealed : isSealed text = true) : Kept after text := by
  fun_induction Markup.isSealed text with
  | case1 => exact .nil
  | case2 c rest ih =>
    simp only [Bool.and_eq_true, Bool.not_eq_true', Bool.or_eq_true, decide_eq_true_eq] at isSealed
    obtain ⟨⟨finished, ended⟩, others⟩ := isSealed
    exact .cons (lexeme_append finished (ended.imp_right .inl)) (ih others)

variable {offset : Nat}

theorem tokensFrom_cons : tokensFrom offset (c :: rest) =
    ((lexeme c rest).1.map fun kind =>
        Token.mk kind offset (c :: rest.take (lexeme c rest).2)).toList ++
      tokensFrom (offset + byteSize (c :: rest.take (lexeme c rest).2))
        (rest.drop (lexeme c rest).2) := by
  rw [tokensFrom]
  dsimp only
  cases (lexeme c rest).1 <;> rfl

/-- A piece that ends in the text, and what is left of the text. -/
theorem byteSize_piece (c : Char) (rest : List Char) (n : Nat) :
    byteSize (c :: rest.take n) + byteSize (rest.drop n) = byteSize (c :: rest) := by
  rw [← byteSize_append, List.cons_append, List.take_append_drop]

/-- The tokens of a text and of what follows it. -/
theorem Kept.tokensFrom_append (kept : Kept after text) :
    tokensFrom offset (text ++ after) =
      tokensFrom offset text ++ tokensFrom (offset + byteSize text) after := by
  induction kept generalizing offset with
  | nil =>
    rw [tokensFrom.eq_1 offset]
    rfl
  | @cons c rest same others ih =>
    have fits := length_lexeme_le c rest
    rw [List.cons_append, tokensFrom_cons, tokensFrom_cons, same,
      List.take_append_of_le_length fits, List.drop_append_of_le_length fits, ih,
      ← byteSize_piece c rest (lexeme c rest).2, ← Nat.add_assoc, List.append_assoc]

/-- The first token of a text begins where the text does, and the others in what is left. -/
theorem mem_tokensFrom_cons {t : Token} (member : t ∈ tokensFrom offset (c :: rest)) :
    t.start = offset ∨ t ∈ tokensFrom (offset + byteSize (c :: rest.take (lexeme c rest).2))
      (rest.drop (lexeme c rest).2) := by
  rw [tokensFrom_cons] at member
  refine (List.mem_append.1 member).imp_left fun here => ?_
  obtain ⟨kind, _, rfl⟩ := Option.map_eq_some_iff.1 (Option.mem_toList.1 here)
  rfl

/-- A text that begins later has the same tokens, as much later. -/
theorem mem_tokensFrom_add {t : Token} (later : Nat) (member : t ∈ tokensFrom offset text) :
    ⟨t.kind, later + t.start, t.chars⟩ ∈ tokensFrom (later + offset) text := by
  fun_induction tokensFrom offset text with
  | case1 offset => cases member
  | case2 offset c rest length chars others kind read ih =>
    rw [tokensFrom_cons, read]
    rcases List.mem_cons.1 member with rfl | inOthers
    · exact .head _
    · rw [Nat.add_assoc]
      exact .tail _ (ih inOthers)
  | case3 offset c rest length chars others read ih =>
    rw [tokensFrom_cons, read, Nat.add_assoc]
    exact ih member

/-- Tokens begin before the text ends. -/
theorem start_lt_of_mem {t : Token} (member : t ∈ tokensFrom offset text) :
    t.start < offset + byteSize text := by
  fun_induction tokensFrom offset text with
  | case1 offset => cases member
  | case2 offset c rest length chars later kind read ih =>
    have sizes : byteSize chars + _ = _ := byteSize_piece c rest length
    rcases List.mem_cons.1 member with rfl | inLater
    · exact Nat.lt_add_of_pos_right (byteSize_cons_pos c rest)
    · have bound := ih inLater
      omega
  | case3 offset c rest length chars later read ih =>
    have sizes : byteSize chars + _ = _ := byteSize_piece c rest length
    have bound := ih member
    omega

/-- No token begins in the plain characters behind an open-ended text: they belong to the string,
the template literal or the comment that the text has begun. -/
theorem not_start_of_openEnded {t : Token} (unended : openEnded text = true)
    (arePlain : ∀ d ∈ plain, isPlain d = true) (mild : Mild (plain ++ later))
    (member : t ∈ tokensFrom offset (text ++ (plain ++ later))) :
    t.start < offset + byteSize text ∨ offset + byteSize (text ++ plain) ≤ t.start := by
  fun_induction openEnded text generalizing offset with
  | case1 => cases unended
  | case2 c rest ih =>
    rw [List.cons_append] at member
    rcases mem_tokensFrom_cons member with here | further
    · have filled := byteSize_cons_pos c rest
      exact .inl (by omega)
    cases isUnfinished : unfinished c rest with
    | true =>
      have takes := @lexeme_takes c rest plain later isUnfinished arePlain
      have begins : c :: rest ++ plain <+:
          c :: (rest ++ (plain ++ later)).take (lexeme c (rest ++ (plain ++ later))).2 := by
        refine List.prefix_cons_inj c |>.2 (List.prefix_take_iff.2 ⟨⟨later, ?_⟩, ?_⟩)
        · exact List.append_assoc ..
        · rw [List.append_eq, List.length_append]
          exact takes
      have size := byteSize_le_of_prefix begins
      have start := le_start_of_mem further
      exact .inr (by omega)
    | false =>
      have same := lexeme_append isUnfinished (.inr (.inr mild))
      have fits := length_lexeme_le c rest
      rw [same, List.take_append_of_le_length fits, List.drop_append_of_le_length fits] at further
      rw [isUnfinished, Bool.false_or] at unended
      have sizes := byteSize_piece c rest (lexeme c rest).2
      have next := ih unended further
      rw [byteSize_append] at next ⊢
      omega

end TypedSvelte.Markup
