import TypedSvelte.Proofs.Markup.Containment
import TypedSvelte.Proofs.Text.Encoding

/-!
# Tokens by themselves

A token is told by its own characters: it is read again from its slice (`lexeme_take`). Strings,
template literals and comments are passed in the same way if the text is read byte by byte
(`lexeme_byteChars`), although a backslash then takes only the first byte of a wide character with
it. So a piece that is passed ends at a character boundary.
-/
namespace TypedSvelte.Markup

variable {c d quote : Char} {text rest high : List Char} {depth : Nat} {t : Token}

private theorem quotedReach_closes (isQuote : quote ≠ '\\' ∧ quote ≠ '\n') :
    quotedReach quote (quote :: text) = ⟨1, true⟩ := by
  cases text <;> simp [quotedReach, isQuote]

private theorem quotedReach_newline (quote : Char) (text : List Char) :
    quotedReach quote ('\n' :: text) = ⟨0, false⟩ := by
  cases text <;> simp [quotedReach]

/-- A string goes on over a character that neither ends it nor takes another one with it. -/
theorem quotedReach_cons (notBackslash : c ≠ '\\') (notNewline : c ≠ '\n') (notQuote : c ≠ quote) :
    quotedReach quote (c :: text) = (quotedReach quote text).add 1 := by
  cases text <;> simp [quotedReach, Reach.add, notBackslash, notNewline, notQuote]

private theorem quotedReach_escape (quote d : Char) (text : List Char) :
    quotedReach quote ('\\' :: d :: text) = (quotedReach quote text).add 2 := by
  simp [quotedReach]

/-- The number of braces open behind a character of a template literal that is passed alone. -/
def templateDepth (c : Char) (depth : Nat) : Nat :=
  if c = '{' ∧ depth ≠ 0 then depth + 1 else if c = '}' ∧ depth ≠ 0 then depth - 1 else depth

private theorem templateReach_closes (text : List Char) : templateReach 0 ('`' :: text) = ⟨1, true⟩ := by
  cases text <;> simp [templateReach]

private theorem templateReach_escape (depth : Nat) (d : Char) (text : List Char) :
    templateReach depth ('\\' :: d :: text) = (templateReach depth text).add 2 := by
  simp [templateReach]

private theorem templateReach_opens (depth : Nat) (text : List Char) :
    templateReach depth ('$' :: '{' :: text) = (templateReach (depth + 1) text).add 2 := by
  simp [templateReach]

/-- A template literal goes on over a character that is passed alone. -/
theorem templateReach_cons (notBackslash : c ≠ '\\') (notClosing : ¬(c = '`' ∧ depth = 0))
    (notOpening : ¬(c = '$' ∧ text.head? = some '{')) :
    templateReach depth (c :: text) = (templateReach (templateDepth c depth) text).add 1 := by
  cases text with
  | nil => simpa [templateReach, Reach.add] using notClosing
  | cons d rest =>
    have substitution : ¬(c = '$' ∧ d = '{') := by simpa using notOpening
    rw [templateReach]
    simp only [beq_iff_eq, Bool.and_eq_true, bne_iff_ne, notBackslash, notClosing, substitution,
      if_false, templateDepth]
    split
    · rfl
    · split <;> rfl

/-- What holds along a string: the string ends with the text, at its line or at the quote, and
otherwise goes on behind a character or behind a backslash and what it takes with it. -/
@[elab_as_elim]
theorem quoted_induction {motive : List Char → Prop} (quote : Char) (nil : motive [])
    (backslash : motive ['\\']) (newline : ∀ rest, motive ('\n' :: rest))
    (closes : ∀ rest, motive (quote :: rest))
    (escape : ∀ d rest, motive rest → motive ('\\' :: d :: rest))
    (plain : ∀ c rest, c ≠ '\\' → c ≠ '\n' → c ≠ quote → motive rest → motive (c :: rest))
    (text : List Char) : motive text := by
  induction size : text.length using Nat.strong_induction_on generalizing text with
  | _ n ih =>
    have shorter (rest : List Char) (less : rest.length < text.length) : motive rest :=
      ih rest.length (by omega) rest rfl
    cases text with
    | nil => exact nil
    | cons c rest =>
      by_cases isNewline : c = '\n'
      · subst isNewline
        exact newline rest
      by_cases isQuote : c = quote
      · subst isQuote
        exact closes rest
      by_cases isBackslash : c = '\\'
      · subst isBackslash
        cases rest with
        | nil => exact backslash
        | cons d rest => exact escape d rest (shorter rest (by simp only [List.length_cons]; omega))
      · exact plain c rest isBackslash isNewline isQuote (shorter rest (by simp))

/-- What holds along a template literal: it ends with the text or at a backquote outside of its
braces, and otherwise goes on behind a character, behind the opening of a substitution, or behind a
backslash and what it takes with it. -/
@[elab_as_elim]
theorem template_induction {motive : Nat → List Char → Prop} (nil : ∀ depth, motive depth [])
    (backslash : ∀ depth, motive depth ['\\']) (closes : ∀ rest, motive 0 ('`' :: rest))
    (escape : ∀ depth d rest, motive depth rest → motive depth ('\\' :: d :: rest))
    (opens : ∀ depth rest, motive (depth + 1) rest → motive depth ('$' :: '{' :: rest))
    (plain : ∀ depth c rest, c ≠ '\\' → ¬(c = '`' ∧ depth = 0) →
      ¬(c = '$' ∧ rest.head? = some '{') → motive (templateDepth c depth) rest →
      motive depth (c :: rest))
    (depth : Nat) (text : List Char) : motive depth text := by
  induction size : text.length using Nat.strong_induction_on generalizing depth text with
  | _ n ih =>
    have shorter (depth : Nat) (rest : List Char) (less : rest.length < text.length) :
        motive depth rest := ih rest.length (by omega) depth rest rfl
    cases text with
    | nil => exact nil depth
    | cons c rest =>
      by_cases isBackslash : c = '\\'
      · subst isBackslash
        cases rest with
        | nil => exact backslash depth
        | cons d rest =>
          exact escape depth d rest (shorter depth rest (by simp only [List.length_cons]; omega))
      by_cases isClosing : c = '`' ∧ depth = 0
      · obtain ⟨rfl, rfl⟩ := isClosing
        exact closes rest
      by_cases isOpening : c = '$' ∧ rest.head? = some '{'
      · obtain ⟨rfl, first⟩ := isOpening
        obtain ⟨rest, rfl⟩ := List.head?_eq_some_iff.1 first
        exact opens depth rest (shorter (depth + 1) rest (by simp only [List.length_cons]; omega))
      · exact plain depth c rest isBackslash isClosing isOpening
          (shorter (templateDepth c depth) rest (by simp))

/-- A closed string is read again from its characters. -/
theorem quotedReach_take (isQuote : quote ≠ '\\' ∧ quote ≠ '\n')
    (ended : (quotedReach quote text).complete = true) :
    quotedReach quote (text.take (quotedReach quote text).length) = quotedReach quote text := by
  induction text using quoted_induction quote with
  | nil => rfl
  | backslash => rfl
  | newline rest =>
    rw [quotedReach_newline] at ended
    cases ended
  | closes rest =>
    rw [quotedReach_closes isQuote]
    exact quotedReach_closes isQuote
  | escape d rest ih =>
    rw [quotedReach_escape] at ended ⊢
    change quotedReach quote ('\\' :: d :: rest.take (quotedReach quote rest).length) = _
    rw [quotedReach_escape, ih ended]
  | plain c rest notBackslash notNewline notQuote ih =>
    rw [quotedReach_cons notBackslash notNewline notQuote] at ended ⊢
    change quotedReach quote (c :: rest.take (quotedReach quote rest).length) = _
    rw [quotedReach_cons notBackslash notNewline notQuote, ih ended]

/-- A closed template literal is read again from its characters. -/
theorem templateReach_take (ended : (templateReach depth text).complete = true) :
    templateReach depth (text.take (templateReach depth text).length) =
      templateReach depth text := by
  induction depth, text using template_induction with
  | nil depth => rfl
  | backslash depth => rfl
  | closes rest =>
    rw [templateReach_closes]
    exact templateReach_closes []
  | escape depth d rest ih =>
    rw [templateReach_escape] at ended ⊢
    change templateReach depth ('\\' :: d :: rest.take (templateReach depth rest).length) = _
    rw [templateReach_escape, ih ended]
  | opens depth rest ih =>
    rw [templateReach_opens] at ended ⊢
    change templateReach depth
      ('$' :: '{' :: rest.take (templateReach (depth + 1) rest).length) = _
    rw [templateReach_opens, ih ended]
  | plain depth c rest notBackslash notClosing notOpening ih =>
    rw [templateReach_cons notBackslash notClosing notOpening] at ended ⊢
    change templateReach depth
      (c :: rest.take (templateReach (templateDepth c depth) rest).length) = _
    rw [templateReach_cons notBackslash notClosing, ih ended]
    rintro ⟨isDollar, first⟩
    rw [List.head?_take] at first
    exact notOpening ⟨isDollar, (Option.ite_none_left_eq_some.1 first).2⟩

/-- A closed comment is read again from its characters. -/
theorem blockCommentReach_take (ended : (blockCommentReach text).complete = true) :
    blockCommentReach (text.take (blockCommentReach text).length) = blockCommentReach text := by
  have fits := length_blockCommentReach_le text
  unfold blockCommentReach at ended fits ⊢
  cases found : findText? ['*', '/'] text with
  | none =>
    rw [found] at ended
    cases ended
  | some n =>
    rw [found] at fits
    dsimp only at fits ⊢
    rw [← List.take_append_drop (n + 2) text] at found
    have size : (text.take (n + 2)).length = n + 2 := List.length_take_of_le fits
    rw [findText?_of_append found (Nat.le_of_eq size.symm)]

private theorem takeWhile_take (p : Char → Bool) (text : List Char) :
    (text.take (text.takeWhile p).length).takeWhile p = text.takeWhile p := by
  rw [← List.prefix_iff_eq_take.1 (List.takeWhile_prefix p), List.takeWhile_idem]

/-- A piece that is a token is read again from its characters. -/
theorem lexeme_take (isToken : (lexeme c rest).1.isSome = true) :
    lexeme c (rest.take (lexeme c rest).2) = lexeme c rest := by
  cases leads c with
  | single read _ => rw [read, read rest]
  | run _ kind p _ read _ _ => rw [read, read, takeWhile_take]
  | quote isQuote =>
    have isMark : c ≠ '\\' ∧ c ≠ '\n' := by rcases isQuote with rfl | rfl <;> decide
    rw [lexeme_quote isQuote] at isToken ⊢
    have ended : (quotedReach c rest).complete = true := Option.isSome_ite.1 isToken
    rw [lexeme_quote isQuote, quotedReach_take isMark ended]
  | backquote isBackquote =>
    subst isBackquote
    rw [lexeme_backquote] at isToken ⊢
    have ended : (templateReach 0 rest).complete = true := Option.isSome_ite.1 isToken
    rw [lexeme_backquote, templateReach_take ended]
  | slash isSlash =>
    subst isSlash
    cases rest with
    | nil => rfl
    | cons d tail =>
      by_cases line : d = '/'
      · subst line
        rw [lexeme_line]
        dsimp only
        rw [Nat.add_comm, List.take_succ_cons, lexeme_line, takeWhile_take, Nat.add_comm]
      by_cases block : d = '*'
      · subst block
        rw [lexeme_block] at isToken ⊢
        have ended : (blockCommentReach tail).complete = true := Option.isSome_ite.1 isToken
        rw [List.take_succ_cons, lexeme_block, blockCommentReach_take ended]
      · have alone : lexeme '/' (d :: tail) = (some .punct, 0) :=
          lexeme_slash fun e first => by cases first; exact ⟨line, block⟩
        rw [alone]
        rfl

/-- A token is the only one of its own characters. -/
theorem tokens_of_mem {offset : Nat} (member : t ∈ tokensFrom offset text) :
    tokens t.chars = [⟨t.kind, 0, t.chars⟩] := by
  fun_induction tokensFrom offset text with
  | case1 offset => cases member
  | case2 offset c rest length chars others kind read ih =>
    rcases List.mem_cons.1 member with rfl | inOthers
    · have again := @lexeme_take c rest (by rw [read]; rfl)
      rw [read] at again
      have whole : (rest.take length).length ≤ length := List.length_take_le ..
      change tokensFrom 0 (c :: rest.take length) = _
      rw [tokensFrom_cons, again, List.take_of_length_le whole, List.drop_of_length_le whole,
        tokensFrom.eq_1]
      rfl
    · exact ih inOthers
  | case3 offset c rest length chars others read ih => exact ih member

def Reach.inBytes (text : List Char) (r : Reach) : Reach :=
  ⟨byteSize (text.take r.length), r.complete⟩

private theorem Reach.inBytes_add (front : List Char) (r : Reach) :
    (r.add front.length).inBytes (front ++ text) = (r.inBytes text).add (byteSize front) := by
  unfold inBytes add
  rw [Nat.add_comm r.length, List.take_length_add_append, byteSize_append, Nat.add_comm]

/-- A character is as long as its first byte and those that follow it. -/
theorem Reach.inBytes_cons {n : Nat} (length : n + 1 = c.utf8Size) (r : Reach) :
    (r.add 1).inBytes (c :: text) = ((r.inBytes text).add n).add 1 := by
  rw [add_add, length]
  exact Reach.inBytes_add [c] r

private theorem Reach.inBytes_escape {n : Nat} (length : n + 1 = d.utf8Size) (r : Reach) :
    (r.add 2).inBytes ('\\' :: d :: text) = ((r.inBytes text).add n).add 2 := by
  have size : byteSize ['\\', d] = n + 2 := by
    change 1 + (d.utf8Size + 0) = n + 2
    omega
  rw [add_add, ← size]
  exact Reach.inBytes_add ['\\', d] r

/-- What begins the bytes of a character differs from other characters of ASCII as the character
does. -/
theorem first_eq_iff {first : Char} {others : List Char}
    (same : first = c ∧ others = [] ∨ 128 ≤ first.toNat ∧ 128 ≤ c.toNat)
    (narrow : d.toNat < 128) : first = d ↔ c = d := by
  rcases same with ⟨rfl, -⟩ | ⟨firstBeyond, beyond⟩
  · exact Iff.rfl
  · constructor
    · rintro rfl
      omega
    · rintro rfl
      omega

private theorem ne_of_beyond (beyond : 128 ≤ c.toNat) (narrow : d.toNat < 128) : c ≠ d := by
  rintro rfl
  omega

theorem head?_byteChars (narrow : d.toNat < 128) (text : List Char) :
    (byteChars text).head? = some d ↔ text.head? = some d := by
  cases text with
  | nil => exact Iff.rfl
  | cons c rest =>
    obtain ⟨first, others, whole, -, -, same⟩ := byteChars_cons c rest
    rw [whole, List.head?_cons, List.head?_cons, Option.some_inj, Option.some_inj]
    exact first_eq_iff same narrow

/-- Two characters of ASCII begin the bytes of a text if they begin the text. -/
theorem first_two_iff {a b first : Char} {others : List Char}
    (same : first = c ∧ others = [] ∨ 128 ≤ first.toNat ∧ 128 ≤ c.toNat)
    (narrow : a.toNat < 128) (narrowNext : b.toNat < 128) :
    first = a ∧ (others ++ byteChars rest).head? = some b ↔ c = a ∧ rest.head? = some b := by
  rcases same with ⟨rfl, rfl⟩ | ⟨firstBeyond, beyond⟩
  · rw [List.nil_append, head?_byteChars narrowNext]
  · constructor
    · rintro ⟨rfl, -⟩
      omega
    · rintro ⟨rfl, -⟩
      omega

private theorem quotedReach_beyond (narrow : quote.toNat < 128) (beyond : ∀ d ∈ high, 128 ≤ d.toNat) :
    quotedReach quote (high ++ text) = (quotedReach quote text).add high.length := by
  induction high with
  | nil => rfl
  | cons d rest ih =>
    obtain ⟨here, others⟩ := List.forall_mem_cons.1 beyond
    rw [List.cons_append, quotedReach_cons (ne_of_beyond here (by decide))
      (ne_of_beyond here (by decide)) (ne_of_beyond here narrow), ih others, Reach.add_add]
    rfl

/-- A string ends at the same place if it is read byte by byte. -/
theorem quotedReach_byteChars (isQuote : quote = '"' ∨ quote = '\'') (text : List Char) :
    quotedReach quote (byteChars text) = (quotedReach quote text).inBytes text := by
  have isMark : quote ≠ '\\' ∧ quote ≠ '\n' := by rcases isQuote with rfl | rfl <;> decide
  have size : quote.utf8Size = 1 := by rcases isQuote with rfl | rfl <;> rfl
  have narrow : quote.toNat < 128 := by rcases isQuote with rfl | rfl <;> decide
  induction text using quoted_induction quote with
  | nil => rfl
  | backslash =>
    rw [byteChars_narrow rfl]
    rfl
  | newline rest =>
    rw [byteChars_narrow rfl, quotedReach_newline, quotedReach_newline]
    rfl
  | closes rest =>
    rw [byteChars_narrow size, quotedReach_closes isMark, quotedReach_closes isMark]
    unfold Reach.inBytes
    rw [List.take_one, List.head?_cons, Option.toList_some, byteSize, size]
    rfl
  | escape d rest ih =>
    obtain ⟨first, others, whole, length, beyond, _⟩ := byteChars_cons d rest
    rw [byteChars_narrow rfl, whole, quotedReach_escape, quotedReach_beyond narrow beyond, ih,
      quotedReach_escape, Reach.inBytes_escape length]
  | plain c rest notBackslash notNewline notQuote ih =>
    obtain ⟨first, others, whole, length, beyond, same⟩ := byteChars_cons c rest
    rw [whole, quotedReach_cons (mt (first_eq_iff same (by decide)).1 notBackslash)
      (mt (first_eq_iff same (by decide)).1 notNewline) (mt (first_eq_iff same narrow).1 notQuote),
      quotedReach_beyond narrow beyond, ih, quotedReach_cons notBackslash notNewline notQuote,
      Reach.inBytes_cons length]

private theorem templateDepth_of_ne (notOpening : c ≠ '{') (notClosing : c ≠ '}') :
    templateDepth c depth = depth := by
  simp [templateDepth, notOpening, notClosing]

private theorem templateReach_beyond (beyond : ∀ d ∈ high, 128 ≤ d.toNat) :
    templateReach depth (high ++ text) = (templateReach depth text).add high.length := by
  induction high with
  | nil => rfl
  | cons d rest ih =>
    obtain ⟨here, others⟩ := List.forall_mem_cons.1 beyond
    have differs (mark : Char) (narrow : mark.toNat < 128) : d ≠ mark := ne_of_beyond here narrow
    rw [List.cons_append, templateReach_cons (differs _ (by decide))
      (fun closes => differs _ (by decide) closes.1) (fun opens => differs _ (by decide) opens.1),
      templateDepth_of_ne (differs _ (by decide)) (differs _ (by decide)), ih others, Reach.add_add]
    rfl

/-- A template literal ends at the same place if it is read byte by byte. -/
theorem templateReach_byteChars (depth : Nat) (text : List Char) :
    templateReach depth (byteChars text) = (templateReach depth text).inBytes text := by
  induction depth, text using template_induction with
  | nil depth => rfl
  | backslash depth =>
    rw [byteChars_narrow rfl]
    rfl
  | closes rest =>
    rw [byteChars_narrow rfl, templateReach_closes, templateReach_closes]
    rfl
  | escape depth d rest ih =>
    obtain ⟨first, others, whole, length, beyond, _⟩ := byteChars_cons d rest
    rw [byteChars_narrow rfl, whole, templateReach_escape, templateReach_beyond beyond, ih,
      templateReach_escape, Reach.inBytes_escape length]
  | opens depth rest ih =>
    have sizes := @Reach.inBytes_add rest ['$', '{'] (templateReach (depth + 1) rest)
    rw [byteChars_narrow rfl, byteChars_narrow rfl, templateReach_opens, ih, templateReach_opens]
    exact sizes.symm
  | plain depth c rest notBackslash notClosing notOpening ih =>
    obtain ⟨first, others, whole, length, beyond, same⟩ := byteChars_cons c rest
    have passed := templateReach_cons notBackslash notClosing notOpening
    have isOpening : first = '{' ↔ c = '{' := first_eq_iff same (by decide)
    have isClosing : first = '}' ↔ c = '}' := first_eq_iff same (by decide)
    have sameDepth : templateDepth first depth = templateDepth c depth := by
      simp only [templateDepth, isOpening, isClosing]
    rw [whole, templateReach_cons (mt (first_eq_iff same (by decide)).1 notBackslash), sameDepth,
      templateReach_beyond beyond, ih, passed, Reach.inBytes_cons length]
    · rwa [first_eq_iff same (by decide)]
    · rwa [first_two_iff same (by decide) (by decide)]

private theorem blockCommentReach_ends (text : List Char) :
    blockCommentReach ('*' :: '/' :: text) = ⟨2, true⟩ := rfl

/-- A comment goes on over a character that does not begin its end. -/
theorem blockCommentReach_cons (goesOn : ¬(c = '*' ∧ text.head? = some '/')) :
    blockCommentReach (c :: text) = (blockCommentReach text).add 1 := by
  have notHere : ¬['*', '/'].isPrefixOf (c :: text) = true := by
    intro begins
    obtain ⟨after, same⟩ := List.isPrefixOf_iff_prefix.1 begins
    cases same
    exact goesOn ⟨rfl, rfl⟩
  unfold blockCommentReach
  rw [findText?, if_neg notHere]
  cases findText? ['*', '/'] text <;> rfl

private theorem blockCommentReach_beyond (beyond : ∀ d ∈ high, 128 ≤ d.toNat) :
    blockCommentReach (high ++ text) = (blockCommentReach text).add high.length := by
  induction high with
  | nil => rfl
  | cons d rest ih =>
    obtain ⟨here, others⟩ := List.forall_mem_cons.1 beyond
    rw [List.cons_append, blockCommentReach_cons fun ends => ne_of_beyond here (by decide) ends.1,
      ih others, Reach.add_add]
    rfl

/-- A comment ends at the same place if it is read byte by byte. -/
theorem blockCommentReach_byteChars (text : List Char) :
    blockCommentReach (byteChars text) = (blockCommentReach text).inBytes text := by
  induction text with
  | nil => rfl
  | cons c rest ih =>
    by_cases ends : c = '*' ∧ rest.head? = some '/'
    · obtain ⟨rfl, next⟩ := ends
      obtain ⟨rest, rfl⟩ := List.head?_eq_some_iff.1 next
      rw [byteChars_narrow rfl, byteChars_narrow rfl, blockCommentReach_ends,
        blockCommentReach_ends]
      rfl
    · obtain ⟨first, others, whole, length, beyond, same⟩ := byteChars_cons c rest
      rw [whole, blockCommentReach_cons, blockCommentReach_beyond beyond, ih,
        blockCommentReach_cons ends, Reach.inBytes_cons length]
      rwa [first_two_iff same (by decide) (by decide)]

/-- A run of characters ends at the same place if it is read byte by byte, unless what is beyond
ASCII is told apart. -/
theorem length_takeWhile_byteChars {p : Char → Bool} {v : Bool}
    (alike : ∀ d, 128 ≤ d.toNat → p d = v) (text : List Char) :
    ((byteChars text).takeWhile p).length = byteSize (text.takeWhile p) := by
  induction text with
  | nil => rfl
  | cons c rest ih =>
    obtain ⟨first, others, whole, length, beyond, same⟩ := byteChars_cons c rest
    have told : p first = p c := by
      rcases same with ⟨rfl, -⟩ | ⟨firstBeyond, cBeyond⟩
      · rfl
      · rw [alike first firstBeyond, alike c cBeyond]
    rw [whole]
    cases passes : p c with
    | false =>
      rw [List.takeWhile_cons_of_neg (by simp [told, passes]),
        List.takeWhile_cons_of_neg (by simp [passes])]
      rfl
    | true =>
      have all : ∀ d ∈ others, p d = true := by
        intro d member
        rcases same with ⟨-, rfl⟩ | ⟨_, cBeyond⟩
        · cases member
        · rw [alike d (beyond d member), ← alike c cBeyond, passes]
      rw [List.takeWhile_cons_of_pos (told.trans passes), List.takeWhile_cons_of_pos passes,
        List.takeWhile_append_of_pos all, List.length_cons, List.length_append, ih, byteSize]
      omega

private theorem isMild_of_beyond (beyond : 128 ≤ c.toNat) : isMild c = true := by
  have ident : isIdentChar c = false := by
    rw [Bool.eq_false_iff]
    intro ident
    have range := range_of_isIdentChar ident
    omega
  have letters := (Bool.or_eq_false_iff.1 (Bool.or_eq_false_iff.1 ident).1).1
  have differs (mark : Char) (narrow : mark.toNat < 128) : c ≠ mark := ne_of_beyond beyond narrow
  refine isMild_iff.2 ⟨ident, ?_, differs _ (by decide), differs _ (by decide)⟩
  simp [isNumberChar, letters, differs '_' (by decide), differs '.' (by decide)]

/-- The piece that begins with a character is the same if the rest is read byte by byte, and as many
bytes belong to it as its characters take. -/
theorem lexeme_byteChars (c : Char) (rest : List Char) :
    lexeme c (byteChars rest) =
      ((lexeme c rest).1, byteSize (rest.take (lexeme c rest).2)) := by
  have run (p : Char → Bool) :
      byteSize (rest.take (rest.takeWhile p).length) = byteSize (rest.takeWhile p) :=
    congrArg byteSize (List.prefix_iff_eq_take.1 (List.takeWhile_prefix p)).symm
  cases leads c with
  | single read _ =>
    have nothing : (lexeme c []).2 = 0 := Nat.le_zero.1 (length_lexeme_le c [])
    rw [read, read rest, nothing]
    exact Prod.ext rfl nothing
  | run _ kind p ends read _ _ =>
    have alike (d : Char) (beyond : 128 ≤ d.toNat) := ends d (isMild_of_beyond beyond)
    rw [read, read, run, length_takeWhile_byteChars alike]
  | quote isQuote =>
    rw [lexeme_quote isQuote, lexeme_quote isQuote, quotedReach_byteChars isQuote]
    rfl
  | backquote isBackquote =>
    subst isBackquote
    rw [lexeme_backquote, lexeme_backquote, templateReach_byteChars]
    rfl
  | slash isSlash =>
    subst isSlash
    by_cases line : rest.head? = some '/'
    · obtain ⟨tail, rfl⟩ := List.head?_eq_some_iff.1 line
      have inLine (d : Char) (beyond : 128 ≤ d.toNat) : (d != '\n') = true :=
        bne_iff_ne.2 (ne_of_beyond beyond (by decide))
      have sizes : byteSize (('/' :: tail).take (1 + (tail.takeWhile (· != '\n')).length)) =
          1 + byteSize (tail.takeWhile (· != '\n')) := by
        rw [Nat.add_comm, List.take_succ_cons,
          ← List.prefix_iff_eq_take.1 (List.takeWhile_prefix (· != '\n'))]
        rfl
      rw [byteChars_narrow rfl, lexeme_line, lexeme_line, length_takeWhile_byteChars inLine, sizes]
    by_cases block : rest.head? = some '*'
    · obtain ⟨tail, rfl⟩ := List.head?_eq_some_iff.1 block
      rw [byteChars_narrow rfl, lexeme_block, lexeme_block, blockCommentReach_byteChars]
      exact Prod.ext rfl (Nat.add_comm _ 1)
    · have alone : Slashless rest := by
        rintro d first
        rw [first] at line block
        exact ⟨fun slash => line (congrArg some slash), fun star => block (congrArg some star)⟩
      have aloneInBytes : Slashless (byteChars rest) := by
        rintro d first
        constructor
        · rintro rfl
          exact line ((head?_byteChars (by decide) rest).1 first)
        · rintro rfl
          exact block ((head?_byteChars (by decide) rest).1 first)
      rw [lexeme_slash alone, lexeme_slash aloneInBytes]
      rfl

/-- The tokens of a text are slices of it, none of them empty, that come one behind the other, and
each is the only token of its own slice. The pieces of a text, tokens or not, end inside of it, and
they are the same pieces if the text is read byte by byte, so each ends at a character boundary. -/
theorem tokens_placed (text : String) :
    (∀ t ∈ tokens text.toList, t.start < t.stop ∧ t.stop ≤ text.utf8ByteSize ∧
      IsCut text t.start ∧ IsCut text t.stop ∧ slice? text t.start t.stop = some t.text ∧
      tokens t.text.toList = [⟨t.kind, 0, t.chars⟩]) ∧
    (tokens text.toList).Pairwise (fun a b => a.start < b.start ∧ a.stop ≤ b.start) ∧
    ∀ c rest, (lexeme c rest).2 ≤ rest.length ∧
      lexeme c (byteChars rest) =
        ((lexeme c rest).1, byteSize (rest.take (lexeme c rest).2)) := by
  have filled {t : Token} (member : t ∈ tokens text.toList) : t.start < t.stop := by
    have alone := tokens_of_mem member
    unfold Token.stop
    cases chars : t.chars with
    | nil =>
      rw [chars, tokens, tokensFrom.eq_1] at alone
      cases alone
    | cons c rest => exact Nat.lt_add_of_pos_right (byteSize_cons_pos c rest)
  refine ⟨fun t member => ?_, ?_, fun c rest => ⟨length_lexeme_le c rest, lexeme_byteChars c rest⟩⟩
  · have slice := (in_of_mem_tokensFrom member [] rfl rfl).slice
    rw [List.nil_append, String.ofList_toList] at slice
    obtain ⟨first, last⟩ := cuts_of_slice? slice
    refine ⟨filled member, last.le, first, last, slice, ?_⟩
    rw [Token.text, String.toList_ofList]
    exact tokens_of_mem member
  · refine (ordered_tokensFrom 0 text.toList).imp_of_mem fun inText _ ordered => ?_
    exact ⟨Nat.lt_of_lt_of_le (filled inText) ordered, ordered⟩

end TypedSvelte.Markup
