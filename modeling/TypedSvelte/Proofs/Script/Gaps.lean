import TypedSvelte.Proofs.Text.Bytes
import TypedSvelte.Script.Lookahead

/-!
# White space and comments before tokens

A token comes behind a gap of white space and comments. The offsets of the lexer count the bytes of
the gap, and the spelling of punctuation is what stands there (`lex_punct`). The gap is passed in the
same way whatever stands behind it, and `openGap?` tells what it leaves open (`passGap_append`). A
comment that only a line break can end goes on in the text behind it (`lex_append_gap`), and nothing
does if the gap closes (`passGap_closes`).
-/
namespace TypedSvelte.Script

def GapEnd.Passes (gap : GapEnd) (offset : Nat) (text : List Char) : Prop :=
  ∃ passed, text = passed ++ gap.text ∧ gap.offset = offset + byteSize passed

theorem GapEnd.Passes.cons {gap : GapEnd} {offset : Nat} {c : Char} {cs : List Char}
    (passes : gap.Passes (offset + c.utf8Size) cs) : gap.Passes offset (c :: cs) := by
  obtain ⟨passed, rfl, reached⟩ := passes
  refine ⟨c :: passed, rfl, ?_⟩
  rw [reached, Nat.add_assoc]
  rfl

theorem passes_passGap (strict : Bool) (gap : Gap) (offset : Nat) (afterBreak : Bool)
    (faults : List Nat) (text : List Char) :
    (passGap strict gap offset afterBreak faults text).Passes offset text := by
  fun_induction passGap strict gap offset afterBreak faults text
  all_goals first
    | exact ⟨[], rfl, rfl⟩
    | (rename_i ih; exact ih.cons)

/-- Only punctuation is read as punctuation, and it is read as it is spelled. -/
theorem piece_punct {strict : Bool} {offset : Nat} {text : List Char} {p : String}
    (isPunct : (piece strict offset text).kind = .punct p) :
    p.toList <+: text ∧ (piece strict offset text).length = p.length := by
  obtain ⟨found, length⟩ := punct_of_piece isPunct
  exact ⟨(mem_of_punct? found).2, length⟩

/-- Where a punctuation token stands: behind a gap, and it has its own spelling. -/
theorem lex_punct {strict : Bool} {offset : Nat} {text : List Char} {p : String}
    (isPunct : (lex strict offset text).token.kind = .punct p) :
    ∃ gap, text = gap ++ p.toList ++ (lex strict offset text).rest ∧
      (lex strict offset text).token.start = offset + byteSize gap ∧
      (lex strict offset text).token.stop = offset + byteSize (gap ++ p.toList) := by
  have passes := passes_passGap strict .blank offset false [] text
  unfold lex at isPunct ⊢
  generalize passGap strict .blank offset false [] text = gap at passes isPunct ⊢
  obtain ⟨passed, rfl, reached⟩ := passes
  cases unclosed : gap.unclosed with
  | some opened =>
    simp only [unclosed] at isPunct
    cases isPunct
  | none =>
    simp only [unclosed] at isPunct ⊢
    obtain ⟨⟨after, spelled⟩, length⟩ := piece_punct isPunct
    rw [length, ← spelled, ← String.length_toList, List.take_left, List.drop_left, reached]
    exact ⟨passed, by rw [List.append_assoc], rfl, by rw [byteSize_append, Nat.add_assoc]⟩

def Gap.unplaced : Gap → Gap
  | .blank => .blank
  | .line => .line
  | .opening _ => .opening 0
  | .block _ star => .block 0 star

/-- What is being passed over at the end of a text of white space and comments that stands behind a
token, and whether a line break is among them. None if another token begins. -/
def openGap? (gap : Gap) (afterBreak : Bool) : List Char → Option (Gap × Bool)
  | [] => some (gap, afterBreak)
  | c :: cs =>
    match gap with
    | .line =>
      if isLineBreak c then openGap? .blank true cs else openGap? .line afterBreak cs
    | .opening _ => openGap? (.block 0 false) afterBreak cs
    | .block _ star =>
      if star && c == '/' then openGap? .blank afterBreak cs
      else openGap? (.block 0 (c == '*')) (afterBreak || isLineBreak c) cs
    | .blank =>
      if isLineBreak c then openGap? .blank true cs
      else if isGap c then openGap? .blank afterBreak cs
      else if c == '/' && cs.head? == some '/' then openGap? .line afterBreak cs
      else if c == '/' && cs.head? == some '*' then openGap? (.opening 0) afterBreak cs
      else if (c == '<' && ['!', '-', '-'].isPrefixOf cs)
          || (c == '-' && afterBreak && ['-', '>'].isPrefixOf cs) then
        openGap? .line afterBreak cs
      else none

/-- The text ends in a comment that only a line break can end. -/
def endsInLine (text : List Char) : Bool :=
  (openGap? .blank false text).any (·.1 == .line)

theorem head?_append_of_eq {cs more : List Char} {d : Char} (first : cs.head? = some d) :
    (cs ++ more).head? = some d := by
  rw [List.head?_append, first, Option.some_or]

private theorem isPrefixOf_append {p cs : List Char} (more : List Char) (isPrefix : p.isPrefixOf cs = true) :
    p.isPrefixOf (cs ++ more) = true :=
  List.isPrefixOf_iff_prefix.2 ((List.isPrefixOf_iff_prefix.1 isPrefix).trans (List.prefix_append ..))

/-- White space and comments are passed whatever stands behind them. -/
theorem passGap_append (gap : Gap) {left : Gap} {afterBreak broken : Bool} {text : List Char}
    (passed : openGap? gap.unplaced afterBreak text = some (left, broken)) (strict : Bool)
    (offset : Nat) (faults : List Nat) (more : List Char) : ∃ reached faults',
      reached.unplaced = left ∧ passGap strict gap offset afterBreak faults (text ++ more) =
        passGap strict reached (offset + byteSize text) broken faults' more := by
  induction text generalizing gap offset afterBreak faults with
  | nil =>
    rw [openGap?] at passed
    cases passed
    exact ⟨gap, faults, rfl, rfl⟩
  | cons c cs ih =>
    have sum : offset + byteSize (c :: cs) = offset + c.utf8Size + byteSize cs :=
      (Nat.add_assoc ..).symm
    rw [sum, List.cons_append]
    cases gap with
    | line =>
      rw [passGap.eq_def]
      rw [Gap.unplaced, openGap?.eq_def] at passed
      dsimp only at passed ⊢
      split at passed
      · rename_i isBreak
        rw [if_pos isBreak]
        exact ih .blank passed _ _
      · rename_i noBreak
        rw [if_neg noBreak]
        exact ih .line passed _ _
    | opening opened => exact ih (.block opened false) passed _ _
    | block opened star =>
      rw [passGap.eq_def]
      rw [Gap.unplaced, openGap?.eq_def] at passed
      dsimp only at passed ⊢
      split at passed
      · rename_i ends
        rw [if_pos ends]
        exact ih .blank passed _ _
      · rename_i goesOn
        rw [if_neg goesOn]
        exact ih (.block opened (c == '*')) passed _ _
    | blank =>
      rw [passGap.eq_def]
      rw [Gap.unplaced, openGap?.eq_def] at passed
      dsimp only at passed ⊢
      split at passed
      · rename_i isBreak
        rw [if_pos isBreak]
        exact ih .blank passed _ _
      rename_i noBreak
      rw [if_neg noBreak]
      split at passed
      · rename_i isBlank
        rw [if_pos isBlank]
        exact ih .blank passed _ _
      rename_i notBlank
      rw [if_neg notBlank]
      split at passed
      · rename_i opensLine
        simp only [Bool.and_eq_true, beq_iff_eq] at opensLine
        rw [if_pos (by simp [opensLine.1, head?_append_of_eq opensLine.2])]
        exact ih .line passed _ _
      split at passed
      · rename_i opensBlock
        simp only [Bool.and_eq_true, beq_iff_eq] at opensBlock
        have second := @head?_append_of_eq cs more _ opensBlock.2
        rw [if_neg (by simp [second]), if_pos (by simp [opensBlock.1, second])]
        exact ih (.opening offset) passed _ _
      split at passed
      · rename_i opensMarkup
        have notSlash : c ≠ '/' := by
          rintro rfl
          simp at opensMarkup
        have opens : (c == '<' && ['!', '-', '-'].isPrefixOf (cs ++ more)
            || c == '-' && (afterBreak || offset == 0) && ['-', '>'].isPrefixOf (cs ++ more)) =
              true := by
          simp only [Bool.or_eq_true, Bool.and_eq_true] at opensMarkup ⊢
          rcases opensMarkup with ⟨first, others⟩ | ⟨⟨first, isBreak⟩, others⟩
          · exact Or.inl ⟨first, isPrefixOf_append more others⟩
          · exact Or.inr ⟨⟨first, Or.inl isBreak⟩, isPrefixOf_append more others⟩
        rw [if_neg (by simp [notSlash]), if_neg (by simp [notSlash]), if_pos opens]
        exact ih .line passed _ _
      · cases passed

/-- Where another token begins behind a token, the gap before it ends. -/
theorem text_passGap_ne_nil (gap : Gap) {afterBreak : Bool} {text : List Char}
    (stops : openGap? gap.unplaced afterBreak text = none) (strict : Bool) {offset : Nat}
    (behind : offset ≠ 0) (faults : List Nat) :
    (passGap strict gap offset afterBreak faults text).text ≠ [] := by
  have first : (offset == 0) = false := by simpa using behind
  induction text generalizing gap offset afterBreak faults with
  | nil => cases stops
  | cons c cs ih =>
    have later : offset + c.utf8Size ≠ 0 := by omega
    have further (gap : Gap) (afterBreak : Bool) (faults : List Nat)
        (stops : openGap? gap.unplaced afterBreak cs = none) :=
      ih gap stops later faults (by simpa using later)
    cases gap with
    | line =>
      rw [passGap.eq_def]
      rw [Gap.unplaced, openGap?.eq_def] at stops
      dsimp only at stops ⊢
      split at stops
      · rename_i isBreak
        rw [if_pos isBreak]
        exact further .blank _ _ stops
      · rename_i noBreak
        rw [if_neg noBreak]
        exact further .line _ _ stops
    | opening opened => exact further (.block opened false) _ _ stops
    | block opened star =>
      rw [passGap.eq_def]
      rw [Gap.unplaced, openGap?.eq_def] at stops
      dsimp only at stops ⊢
      split at stops
      · rename_i ends
        rw [if_pos ends]
        exact further .blank _ _ stops
      · rename_i goesOn
        rw [if_neg goesOn]
        exact further (.block opened (c == '*')) _ _ stops
    | blank =>
      rw [passGap.eq_def]
      rw [Gap.unplaced, openGap?.eq_def] at stops
      dsimp only at stops ⊢
      rw [first, Bool.or_false]
      repeat' split at stops
      all_goals simp only [*, if_true, if_false, Bool.false_eq_true]
      · exact further .blank _ _ stops
      · exact further .blank _ _ stops
      · exact further .line _ _ stops
      · exact further (.opening offset) _ _ stops
      · exact further .line _ _ stops
      · exact List.cons_ne_nil _ _

theorem eq_nil_of_piece {strict : Bool} {offset : Nat} {text : List Char}
    (isEnd : (piece strict offset text).kind = .endOfText) : text = [] := by
  unfold piece at isEnd
  repeat' split at isEnd
  · rfl
  · rcases wordPiece_kind strict offset _ with ⟨_, _, isWord⟩ | ⟨_, invalid⟩
    · cases isEnd.symm.trans isWord
    · cases isEnd.symm.trans invalid
  · rcases numberPiece_kind strict offset _ with isNumber | ⟨_, invalid⟩
    · cases isEnd.symm.trans isNumber
    · cases isEnd.symm.trans invalid
  · rcases stringPiece_kind strict offset _ _ with ⟨_, isString⟩ | ⟨_, invalid⟩
    · cases isEnd.symm.trans isString
    · cases isEnd.symm.trans invalid
  all_goals cases isEnd

/-- A text in which no token begins is white space and comments, and leaves open at most a comment
that a line break ends. -/
theorem openGap?_of_tokenless {strict : Bool} {offset : Nat} {text : List Char} (behind : offset ≠ 0)
    (tokenless : (lex strict offset text).token.kind = .endOfText) : ∃ broken,
      openGap? .blank false text = some (if endsInLine text then .line else .blank, broken) := by
  unfold lex at tokenless
  dsimp only at tokenless
  split at tokenless
  · cases tokenless
  rename_i closed
  have toEnd := eq_nil_of_piece tokenless
  cases passed : openGap? .blank false text with
  | none => exact absurd toEnd (text_passGap_ne_nil .blank passed strict behind [])
  | some last =>
    obtain ⟨left, broken⟩ := last
    obtain ⟨reached, faults, rfl, same⟩ := passGap_append .blank passed strict offset [] []
    rw [List.append_nil] at same
    rw [same] at closed
    refine ⟨broken, ?_⟩
    unfold endsInLine
    rw [passed]
    cases reached with
    | blank | line => rfl
    | opening opened => cases closed
    | block opened star => cases closed

/-- Behind white space and comments, a semicolon with a parenthesis on the next line is the next
token. If they leave a comment open, the comment takes it in, and the parenthesis is the next
token. -/
theorem lex_append_gap {text : List Char} {broken : Bool}
    (passed : openGap? .blank false text = some (if endsInLine text then .line else .blank, broken))
    (strict : Bool) (offset : Nat) (more : List Char) :
    let next := (lex strict offset (text ++ ';' :: '\n' :: '(' :: more)).token
    if endsInLine text then next.kind = .punct "(" ∧ next.afterBreak = true
    else next.kind = .punct ";" := by
  obtain ⟨reached, faults, same, passed⟩ :=
    passGap_append .blank passed strict offset [] (';' :: '\n' :: '(' :: more)
  unfold lex
  dsimp only
  rw [passed]
  cases ends : endsInLine text with
  | false =>
    obtain rfl : reached = .blank := by
      cases reached <;> simp_all [Gap.unplaced]
    rfl
  | true =>
    obtain rfl : reached = .line := by
      cases reached <;> simp_all [Gap.unplaced]
    exact ⟨rfl, rfl⟩

/-- The text is white space and comments that end in it, none of them opened as in HTML. -/
def closes (gap : Gap) : List Char → Bool
  | [] => gap == .blank
  | c :: cs =>
    match gap with
    | .line => closes (if isLineBreak c then .blank else .line) cs
    | .opening _ => closes (.block 0 false) cs
    | .block _ star => closes (if star && c == '/' then .blank else .block 0 (c == '*')) cs
    | .blank =>
      if isLineBreak c || isGap c then closes .blank cs
      else if c == '/' && cs.head? == some '/' then closes .line cs
      else c == '/' && cs.head? == some '*' && closes (.opening 0) cs

/-- A gap that closes is passed without a fault. -/
theorem passGap_closes (gap : Gap) {text : List Char} (closed : closes gap.unplaced text = true)
    (strict : Bool) (offset : Nat) (afterBreak : Bool) (faults : List Nat) (more : List Char) :
    ∃ broken, passGap strict gap offset afterBreak faults (text ++ more) =
      passGap strict .blank (offset + byteSize text) broken faults more := by
  induction text generalizing gap offset afterBreak with
  | nil =>
    rw [closes] at closed
    cases gap with
    | blank => exact ⟨afterBreak, rfl⟩
    | line | opening _ | block _ _ => cases closed
  | cons c cs ih =>
    have sum : offset + byteSize (c :: cs) = offset + c.utf8Size + byteSize cs :=
      (Nat.add_assoc ..).symm
    rw [sum, List.cons_append]
    cases gap with
    | line =>
      rw [passGap.eq_def]
      rw [Gap.unplaced, closes] at closed
      dsimp only
      split at closed
      · rename_i isBreak
        rw [if_pos isBreak]
        exact ih .blank closed ..
      · rename_i noBreak
        rw [if_neg noBreak]
        exact ih .line closed ..
    | opening opened => exact ih (.block opened false) closed ..
    | block opened star =>
      rw [passGap.eq_def]
      rw [Gap.unplaced, closes] at closed
      dsimp only
      split at closed
      · rename_i ends
        rw [if_pos ends]
        exact ih .blank closed ..
      · rename_i goesOn
        rw [if_neg goesOn]
        exact ih (.block opened (c == '*')) closed ..
    | blank =>
      rw [passGap.eq_def]
      rw [Gap.unplaced, closes] at closed
      dsimp only
      split at closed
      · rename_i isBlank
        split
        · exact ih .blank closed ..
        · rename_i noBreak
          rw [if_pos ((Bool.or_eq_true_iff.1 isBlank).resolve_left noBreak)]
          exact ih .blank closed ..
      rename_i notBlank
      obtain ⟨noBreak, noGap⟩ := not_or.1 fun either => notBlank (Bool.or_eq_true_iff.2 either)
      rw [if_neg noBreak, if_neg noGap]
      split at closed
      · rename_i opensLine
        simp only [Bool.and_eq_true, beq_iff_eq] at opensLine
        rw [if_pos (by simp [opensLine.1, head?_append_of_eq opensLine.2])]
        exact ih .line closed ..
      · simp only [Bool.and_eq_true, beq_iff_eq] at closed
        obtain ⟨⟨slash, star⟩, closed⟩ := closed
        have second := @head?_append_of_eq cs more _ star
        rw [if_neg (by simp [second]), if_pos (by simp [slash, second])]
        exact ih (.opening offset) closed ..

/-- A valid token is the same wherever it is. -/
theorem piece_move {strict : Bool} {m : Nat} (n : Nat) {text : List Char}
    (valid : ∀ fault, (piece strict m text).kind ≠ .invalid fault) :
    piece strict n text = piece strict m text := by
  have number (reach : Nat × Option Nat)
      (valid : ∀ fault, (numberUpTo m text reach).kind ≠ .invalid fault) :
      numberUpTo n text reach = numberUpTo m text reach := by
    unfold numberUpTo at valid ⊢
    split at valid
    · split at valid
      · exact absurd rfl (valid _)
      · rename_i apart
        rw [if_neg apart, if_neg apart]
    · rfl
  unfold piece at valid ⊢
  split
  · rfl
  rename_i c rest
  dsimp only at valid
  split at valid
  · rename_i isWord
    rw [if_pos isWord, if_pos isWord]
    unfold wordPiece at valid ⊢
    split at valid
    · dsimp only at valid ⊢
      split at valid
      · exact absurd rfl (valid _)
      · rename_i spelled
        rw [if_neg spelled, if_neg spelled]
    · exact absurd rfl (valid _)
  rename_i noWord
  rw [if_neg noWord, if_neg noWord]
  split at valid
  · rename_i isNumber
    rw [if_pos isNumber, if_pos isNumber]
    unfold numberPiece at valid ⊢
    split at valid
    · exact number _ valid
    · dsimp only at valid ⊢
      split at valid
      · rename_i any
        rw [if_pos any, if_pos any]
        exact number _ valid
      · exact absurd rfl (valid _)
  rename_i noNumber
  rw [if_neg noNumber, if_neg noNumber]
  split at valid
  · rename_i isString
    rw [if_pos isString, if_pos isString]
    unfold stringPiece at valid ⊢
    dsimp only at valid ⊢
    split at valid
    · rfl
    · exact absurd rfl (valid _)
  rename_i noString
  rw [if_neg noString, if_neg noString]
  split at valid
  · rename_i isPrivate
    rw [if_pos isPrivate, if_pos isPrivate]
    split at valid
    · rfl
    · exact absurd rfl (valid _)
  rename_i notPrivate
  rw [if_neg notPrivate, if_neg notPrivate]
  split at valid
  · rfl
  · exact absurd rfl (valid _)

end TypedSvelte.Script
