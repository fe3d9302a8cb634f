import TypedSvelte.Proofs.Script.MovedItems

/-!
# Readers stay in the text

A token lies in the text that it is recognised in, and so do the faults in it (`within_lex`). From
there all offsets come that readers deal in: a reader gives, notes and gives up at offsets of the
text alone (`Reader.Bounded`). This is kept when readers are put together, so a rule of the grammar is
bounded because the rules that it reads by are. A rule with branches is taken apart read by read,
what its branches go on to first; the lemmas for the ways to put readers together are tagged for the
others.
-/
namespace TypedSvelte.Script

variable {α β : Type} [Located α] [Located β] {size offset : Nat}

private theorem length_le_byteSize (text : List Char) : text.length ≤ byteSize text := by
  induction text with
  | nil => exact Nat.le_refl 0
  | cons c rest ih =>
    have filled := c.utf8Size_pos
    dsimp only [List.length_cons, byteSize]
    omega

private theorem byteSize_take_le (n : Nat) (text : List Char) : byteSize (text.take n) ≤ byteSize text := by
  have parts := byteSize_take_add_drop n text
  omega

def Gap.Began (size : Nat) : Gap → Prop
  | .opening opened | .block opened _ => opened ≤ size
  | .blank | .line => True

/-- The faults of a gap and a comment that it leaves open lie in the text. -/
theorem within_passGap (strict : Bool) (gap : Gap) (afterBreak : Bool) {faults : List Nat}
    {text : List Char} (inside : offset + byteSize text ≤ size) (began : gap.Began size)
    (earlier : Within size faults) :
    Within size (passGap strict gap offset afterBreak faults text).faults ∧
      Within size (passGap strict gap offset afterBreak faults text).unclosed := by
  fun_induction passGap strict gap offset afterBreak faults text
  all_goals dsimp only [byteSize, Gap.Began] at *
  all_goals grind

/-- An escape that is found begins in the text. -/
theorem lt_of_firstEscape? {test : List Char → Bool} {text : List Char} {n : Nat}
    (found : firstEscape? test text = some n) : n < byteSize text := by
  fun_induction firstEscape? test text generalizing n with
  | case1 => cases found
  | case2 holds =>
    cases found
    exact Nat.zero_lt_one
  | case3 _ => cases found
  | case4 c cs holds =>
    cases found
    exact Nat.add_pos_left Nat.zero_lt_one _
  | case5 c cs _ ih =>
    obtain ⟨before, later, rfl⟩ := Option.map_eq_some_iff.1 found
    have bound := ih later
    change before + c.utf8Size + 1 < 1 + (c.utf8Size + byteSize cs)
    omega
  | case6 c cs _ _ ih =>
    obtain ⟨before, later, rfl⟩ := Option.map_eq_some_iff.1 found
    have bound := ih later
    change before + c.utf8Size < c.utf8Size + byteSize cs
    omega

/-- The fault in a run of digits comes after characters of the text. -/
theorem within_digitRun (isDigit : Char → Bool) (before : Nat) (text : List Char) :
    Within (byteSize text) (digitRun isDigit before text).2 := by
  unfold digitRun
  dsimp only
  split
  · exact within_none
  · rename_i misplaced
    have short := length_le_byteSize text
    refine within_some.2 (Nat.le_of_not_lt fun past => misplaced ?_)
    rw [List.drop_eq_nil_of_le (by omega)]
    rfl

private theorem within_fractionRun (whole : Nat) (isOctal : Bool) (text : List Char) :
    Within (byteSize text) (fractionRun whole isOctal text).2 := by
  unfold fractionRun
  split
  · exact within_digitRun _ _ _
  · exact within_none

private theorem within_exponentRun (before : Nat) (text : List Char) :
    Within (byteSize text) (exponentRun before text).2 := by
  unfold exponentRun
  split
  · exact within_none
  · exact within_digitRun _ _ _

private theorem within_decimalReach (strict : Bool) (text : List Char) :
    Within (byteSize text) (decimalReach strict text).2 := by
  have wholeFault (isOctal : Bool) : Within (byteSize text)
      (if isOctal && strict then some 0 else (digitRun Char.isDigit 0 text).2) := by
    split
    · exact within_some.2 (Nat.zero_le _)
    · exact within_digitRun _ _ _
  unfold decimalReach
  dsimp only
  split
  · exact wholeFault _
  · exact within_orElse (wholeFault _)
      (within_orElse (within_fractionRun _ _ _) (within_exponentRun _ _))

/-- The fault of a piece lies in the text that it begins, and so does the place where no token
begins. -/
structure Piece.Inside (offset : Nat) (text : List Char) (p : Piece) : Prop where
  kind : Within (offset + byteSize text) p.kind
  fault : Within (byteSize text) p.fault

private theorem le_byteSize_of_markedDigit? {text : List Char} {isDigit : Char → Bool}
    (marked : markedDigit? text = some isDigit) : 2 ≤ byteSize text := by
  have long := length_le_byteSize text
  unfold markedDigit? at marked
  split at marked <;> grind

private theorem inside_numberUpTo {text : List Char} {reach : Nat × Option Nat}
    (within : Within (byteSize text) reach.2) : (numberUpTo offset text reach).Inside offset text := by
  unfold numberUpTo
  split
  · split
    · exact ⟨within_invalid.2 (Nat.add_le_add_left (byteSize_take_le _ text) offset), within⟩
    · exact ⟨by rintro _ ⟨⟩, within⟩
  · exact ⟨by rintro _ ⟨⟩, within⟩

private theorem inside_numberPiece (strict : Bool) (text : List Char) :
    (numberPiece strict offset text).Inside offset text := by
  unfold numberPiece
  split
  · exact inside_numberUpTo (within_decimalReach strict text)
  · rename_i isDigit marked
    have within := within_digitRun isDigit 2 text
    have two := le_byteSize_of_markedDigit? marked
    dsimp only
    split
    · exact inside_numberUpTo within
    · exact ⟨within_invalid.2 (Nat.add_le_add_left two offset), within⟩

private theorem inside_stringPiece (strict : Bool) (quote : Char) (text : List Char) :
    (stringPiece strict offset quote text).Inside offset (quote :: text) := by
  have filled := quote.utf8Size_pos
  have content (n : Nat) (test : List Char → Bool) (before : Nat)
      (found : firstEscape? test (text.take n) = some before) :
      before + 1 ≤ byteSize (quote :: text) := by
    have bound := Nat.lt_of_lt_of_le (lt_of_firstEscape? found) (byteSize_take_le n text)
    dsimp only [byteSize]
    omega
  unfold stringPiece
  dsimp only
  split
  · refine ⟨by rintro _ ⟨⟩, within_orElse ?_ ?_⟩
    · split
      · intro before found
        obtain ⟨first, escape, rfl⟩ := Option.map_eq_some_iff.1 found
        exact content _ _ _ escape
      · exact within_none
    · split
      · exact within_none
      · exact within_some.2 (Nat.zero_le _)
  · refine ⟨within_invalid.2 ?_, within_none⟩
    cases found : firstEscape? isMalformedEscape _ with
    | none => exact Nat.le_add_right _ _
    | some before =>
      have bound := content _ _ _ found
      dsimp only [Option.map_some, Option.getD_some]
      omega

private theorem inside_wordPiece (strict : Bool) (text : List Char) :
    (wordPiece strict offset text).Inside offset text := by
  unfold wordPiece
  split
  · dsimp only
    split
    · exact ⟨within_invalid.2 (Nat.le_add_right _ _), within_none⟩
    · exact ⟨by rintro _ ⟨⟩, within_none⟩
  · exact ⟨within_invalid.2 (Nat.le_add_right _ _), within_none⟩

private theorem inside_piece (strict : Bool) (text : List Char) :
    (piece strict offset text).Inside offset text := by
  have refused : Within (offset + byteSize text) (.invalid offset : TokenKind) :=
    within_invalid.2 (Nat.le_add_right _ _)
  unfold piece
  split
  · exact ⟨by rintro _ ⟨⟩, within_none⟩
  split
  · exact inside_wordPiece _ _
  split
  · exact inside_numberPiece _ _
  split
  · exact inside_stringPiece _ _ _
  split
  · split
    · exact ⟨by rintro _ ⟨⟩, within_none⟩
    · exact ⟨refused, within_none⟩
  · split
    · exact ⟨by rintro _ ⟨⟩, within_none⟩
    · exact ⟨refused, within_none⟩

/-- The first token of a text lies in the text, and so do its faults. -/
theorem within_lex (strict : Bool) {text : List Char} (inside : offset + byteSize text ≤ size) :
    Within size (lex strict offset text).token := by
  have faults := within_passGap strict .blank false inside True.intro within_nil
  have gap := size_passGap strict .blank offset false [] text
  have bounds := Cursor.size_lex strict inside
  refine ⟨Nat.le_of_add_right_le bounds.1, Nat.le_of_add_right_le bounds.2, ?_⟩
  unfold lex
  dsimp only
  split
  · rename_i opened unclosed
    exact ⟨within_invalid.2 (faults.2 opened unclosed), faults.1⟩
  · have token := @inside_piece (passGap strict .blank offset false [] text).offset strict
      (passGap strict .blank offset false [] text).text
    refine ⟨fun before invalid => Nat.le_trans (token.kind before invalid) (by omega), ?_⟩
    refine within_reverse.2 (within_append.2 ⟨?_, faults.1⟩)
    intro fault member
    obtain ⟨before, found, rfl⟩ := Option.map_eq_some_iff.1 (Option.mem_toList.1 member)
    have bound := token.fault before found
    change _ ≤ byteSize _ at bound
    change _ ≤ size
    omega

/-- The cursor stays in the text, and so do the faults noted and those of the token to be read
next. -/
structure Cursor.Sound (size : Nat) (cursor : Cursor) : Prop where
  fits : cursor.Fits size
  token : Within size cursor.token
  faults : Within size cursor.faults

instance : Located Cursor := ⟨Cursor.Sound⟩

@[grind →]
theorem Cursor.within_next {cursor : Cursor} (within : Within size cursor) :
    Within size cursor.token := within.token

section

variable {text : List Char} {n : Nat} {cursor : Cursor}

theorem Cursor.sound_start (strict : Bool) (inside : offset + byteSize text ≤ size) :
    (Cursor.start strict offset text).Sound size :=
  have token := within_lex strict inside
  ⟨Cursor.fits_start strict inside, token, within_reverse.2 token.2.2.2⟩

theorem Cursor.sound_standing (strict : Bool) (text : List Char) :
    (Cursor.standing strict text).Sound (byteSize text) := by
  have fits := Cursor.fits_standing strict text
  have token := @inside_piece 0 strict text
  refine ⟨fits, ⟨Nat.zero_le _, Nat.le_of_add_right_le fits.rest, fun before invalid => ?_, within_nil⟩,
    within_nil⟩
  exact Nat.zero_add (byteSize text) ▸ token.kind before invalid

namespace Cursor.Sound

theorem moveTo (sound : cursor.Sound size) (inside : offset + byteSize text ≤ size) :
    (cursor.moveTo offset text).Sound size :=
  ⟨Fits.moveTo inside, within_lex true inside, sound.faults⟩

variable (sound : cursor.Sound size)

include sound

theorem skip : (cursor.skip n).Sound size := by
  refine sound.moveTo ?_
  rw [Nat.add_assoc, byteSize_take_add_drop]
  exact sound.fits.rest

theorem pass : (cursor.pass n).Sound size := by
  refine sound.moveTo ?_
  rw [Nat.add_assoc, byteSize_take_add_drop]
  exact sound.fits.token

theorem noteToken (noted : Bool) : (cursor.noteToken noted).Sound size := by
  have fits := sound.fits
  refine ⟨⟨fits.token, fits.rest, fits.previous⟩, sound.token, within_append.2 ⟨?_, sound.faults⟩⟩
  split
  · exact within_reverse.2 sound.token.2.2.2
  · exact within_nil

theorem narrow : cursor.narrow.Sound size := by
  have fits := sound.fits.narrow
  unfold Cursor.narrow at fits ⊢
  split at fits
  · exact sound
  · have token := sound.token
    have shorter := Nat.le_of_add_right_le fits.rest
    exact ⟨fits, ⟨token.1, shorter, by rintro _ ⟨⟩, token.2.2.2⟩, sound.faults⟩

/-- A cursor that went on in a text of its own stays in the text around it. -/
theorem rejoin {next : Cursor} (inner : next.Sound (byteSize cursor.text)) :
    (next.rejoin cursor).Sound size := by
  have inside : byteSize cursor.text + cursor.token.start ≤ size :=
    Nat.add_comm .. ▸ sound.fits.token
  have token := inner.token
  refine ⟨sound.fits.rejoin inner.fits,
    ⟨within_add inside token.1, within_add inside token.2.1, ?_, ?_⟩,
    within_append.2 ⟨?_, sound.faults⟩⟩
  · intro fault invalid
    dsimp only [Cursor.rejoin, Token.shift] at invalid
    unfold TokenKind.shift at invalid
    split at invalid
    · rename_i before found
      cases invalid
      exact within_add inside (token.2.2.1 before found)
    · rename_i other
      exact absurd invalid (other _)
  · exact within_map_of token.2.2.2 fun _ => within_add inside
  · exact within_map_of inner.faults fun _ => within_add inside

end Cursor.Sound

end

def Result.Within (size : Nat) : Result α → Prop
  | .ok a next => Script.Within size a ∧ next.Sound size
  | .error offset next => offset ≤ size ∧ next.Sound size

namespace Reader

variable {reader : Reader α} {next : α → Reader β}

/-- All offsets that the reader comes by in a text of `size` bytes lie in the text: those in what it
gives, those of the faults that it notes and the one at which it gives up. -/
def Bounded (size : Nat) (reader : Reader α) : Prop :=
  ∀ context cursor, cursor.Sound size → (reader.run context cursor).Within size

@[grind ←]
theorem bounded_pure {a : α} (within : Within size a) : (Pure.pure a : Reader α).Bounded size :=
  fun _ _ sound => ⟨within, sound⟩

@[grind ←]
theorem bounded_bind (first : reader.Bounded size)
    (rest : ∀ a, Within size a → (next a).Bounded size) : (reader >>= next).Bounded size := by
  intro context cursor sound
  have read := first context cursor sound
  change Result.Within size (match reader.run context cursor with
    | .ok a cursor => (next a).run context cursor
    | .error offset cursor => .error offset cursor)
  split
  · rename_i a between found
    rw [found] at read
    exact rest a read.1 context between read.2
  · rename_i offset between found
    rw [found] at read
    exact read

@[grind ←]
theorem bounded_map {f : α → β} (first : reader.Bounded size)
    (kept : ∀ a, Within size a → Within size (f a)) : (f <$> reader).Bounded size :=
  bounded_bind first fun a within => bounded_pure (kept a within)

@[grind ←]
theorem bounded_throw (inside : offset ≤ size) : (throw offset : Reader α).Bounded size :=
  fun _ _ sound => ⟨inside, sound⟩

/-- A handler is given an offset of the text. -/
@[grind ←]
theorem bounded_tryCatch {handler : Nat → Reader α} (first : reader.Bounded size)
    (rest : ∀ offset ≤ size, (handler offset).Bounded size) :
    (tryCatch reader handler).Bounded size := by
  intro context cursor sound
  have read := first context cursor sound
  change Result.Within size (match reader.run context cursor with
    | .ok a cursor => .ok a cursor
    | .error offset cursor => (handler offset).run context cursor)
  split
  · rename_i a between found
    rw [found] at read
    exact read
  · rename_i offset between found
    rw [found] at read
    exact rest offset read.1 context between read.2

@[grind .]
theorem bounded_read : (read : Reader Context).Bounded size := fun _ _ sound => ⟨True.intro, sound⟩

@[grind .]
theorem bounded_position : position.Bounded size := fun _ _ sound => ⟨sound, sound⟩

@[grind .]
theorem bounded_token : token.Bounded size := fun _ _ sound => ⟨sound.token, sound⟩

omit [Located α] in
/-- What is told by the text around the cursor is known to lie there. -/
theorem bounded_ask {question : Reader α} {answer : Cursor → α}
    (asks : ∀ context cursor, question.run context cursor = .ok (answer cursor) cursor)
    (rest : ∀ cursor : Cursor, cursor.Sound size → (next (answer cursor)).Bounded size) :
    (question >>= next).Bounded size := by
  intro context cursor sound
  change Result.Within size (match question.run context cursor with
    | .ok a cursor => (next a).run context cursor
    | .error offset cursor => .error offset cursor)
  rw [asks]
  exact rest cursor sound context cursor sound

@[grind .]
theorem bounded_here : here.Bounded size := fun _ _ sound => ⟨sound.token.1, sound⟩

@[grind .]
theorem bounded_behind : behind.Bounded size := fun _ _ sound => ⟨sound.fits.previous, sound⟩

@[grind .]
theorem bounded_isTyped : isTyped.Bounded size := fun _ _ sound => ⟨True.intro, sound⟩

@[grind .]
theorem bounded_fail : (fail : Reader α).Bounded size := by
  unfold fail
  refine bounded_bind bounded_token fun t within => ?_
  split
  · rename_i offset invalid
    exact bounded_throw (within.2.2.1 offset invalid)
  · exact bounded_bind bounded_here fun start inside => bounded_throw inside

@[grind ←]
theorem bounded_note (inside : offset ≤ size) : (note offset).Bounded size := by
  intro context cursor sound
  refine ⟨True.intro, ?_⟩
  split
  · exact sound
  · have fits := sound.fits
    exact ⟨⟨fits.token, fits.rest, fits.previous⟩, sound.token,
      within_cons.2 ⟨inside, sound.faults⟩⟩

@[grind ←]
theorem bounded_noteIf {condition : Bool} (inside : offset ≤ size) :
    (noteIf condition offset).Bounded size := by
  unfold noteIf
  split
  · exact bounded_note inside
  · exact bounded_pure True.intro

@[grind .]
theorem bounded_identify : identify.Bounded size := fun _ _ sound =>
  have fits := sound.fits
  ⟨True.intro, ⟨fits.token, fits.rest, fits.previous⟩, sound.token, sound.faults⟩

@[grind ←]
theorem bounded_forM {as : List α} {f : α → Reader PUnit}
    (each : ∀ a, Within size a → (f a).Bounded size) (within : Within size as) :
    (as.forM f).Bounded size := by
  induction as with
  | nil => exact bounded_pure True.intro
  | cons a as ih =>
    have parts := within_cons.1 within
    exact bounded_bind (each a parts.1) fun _ _ => ih parts.2

@[grind ←]
theorem bounded_option_forM {a? : Option α} {f : α → Reader PUnit}
    (each : ∀ a, Within size a → (f a).Bounded size) (within : Within size a?) :
    (a?.forM f).Bounded size := by
  cases a? with
  | none => exact bounded_pure True.intro
  | some a => exact each a (within_some.1 within)

@[grind .]
theorem bounded_skip (n : Nat) : (skip n).Bounded size :=
  fun _ _ sound => ⟨True.intro, sound.skip.noteToken _⟩

@[grind .]
theorem bounded_pass (n : Nat) : (pass n).Bounded size :=
  fun _ _ sound => ⟨True.intro, sound.pass.noteToken _⟩

@[grind .]
theorem bounded_advance : advance.Bounded size := bounded_skip 0

@[grind .]
theorem bounded_narrow : narrow.Bounded size := fun _ _ sound => ⟨True.intro, sound.narrow⟩

@[grind .]
theorem bounded_peek : peek.Bounded size :=
  fun _ _ sound => ⟨within_lex true sound.fits.rest, sound⟩

@[grind ←]
theorem bounded_within {change : Context → Context} (inner : reader.Bounded size) :
    (within change reader).Bounded size := fun context => inner (change context)

@[grind ←]
theorem bounded_attempt (inner : reader.Bounded size) : (attempt reader).Bounded size := by
  intro context cursor sound
  have read := inner context cursor sound
  dsimp only [attempt]
  split
  · rename_i a next found
    rw [found] at read
    exact ⟨within_some.2 read.1, read.2⟩
  · exact ⟨within_none, sound⟩

@[grind ←]
theorem bounded_trial (inner : reader.Bounded size) : (trial reader).Bounded size :=
  bounded_attempt (bounded_within inner)

@[grind .]
theorem bounded_lookahead (question : Reader Bool) : (lookahead question).Bounded size := by
  intro context cursor sound
  dsimp only [lookahead]
  split <;> exact ⟨True.intro, sound⟩

@[grind ←]
theorem bounded_recover (inner : reader.Bounded size) : (recover reader).Bounded size := by
  refine bounded_tryCatch (bounded_map inner fun a => within_some.2) fun offset inside => ?_
  exact bounded_bind (bounded_note inside) fun _ _ => bounded_pure within_none

@[grind ←]
theorem bounded_discard (inner : reader.Bounded size) : (discard reader).Bounded size :=
  bounded_map inner fun _ _ => True.intro

@[grind ←]
theorem bounded_disregard (inner : reader.Bounded size) : (disregard reader).Bounded size :=
  bounded_tryCatch (bounded_discard inner) fun _ _ => bounded_pure True.intro

@[grind ←]
theorem bounded_collect {step : Reader (Option α)} (each : step.Bounded size) :
    (collect step).Bounded size := by
  have upTo (limit : Nat) : (collectUpTo step limit).Bounded size := by
    induction limit with
    | zero => exact bounded_pure within_nil
    | succ limit ih =>
      refine bounded_bind each fun a? holds => ?_
      cases a? with
      | none => exact bounded_pure within_nil
      | some a =>
        refine bounded_bind ih fun as rest => ?_
        exact bounded_pure (within_cons.2 ⟨within_some.1 holds, rest⟩)
  exact upTo plenty

@[grind ←]
theorem bounded_repeatWhile {step : Reader Bool} (each : step.Bounded size) :
    (repeatWhile step).Bounded size := by
  refine bounded_discard (bounded_collect (bounded_bind each fun again _ => ?_))
  split
  · exact bounded_pure (within_some.2 True.intro)
  · exact bounded_pure within_none

@[grind ←]
theorem bounded_iterate {step : α → Reader (Option α)} {a : α} (first : Within size a)
    (each : ∀ a, Within size a → (step a).Bounded size) : (iterate step a).Bounded size := by
  have upTo (limit : Nat) (a : α) (within : Within size a) :
      (iterateUpTo step limit a).Bounded size := by
    induction limit generalizing a with
    | zero => exact bounded_pure within
    | succ limit ih =>
      refine bounded_bind (each a within) fun a? holds => ?_
      cases a? with
      | none => exact bounded_pure within
      | some next => exact ih next (within_some.1 holds)
  exact upTo plenty a first

@[grind .]
theorem bounded_atPunct (text : String) : (atPunct text).Bounded size := by
  unfold atPunct
  grind

@[grind .]
theorem bounded_atWord (name : String) : (atWord name).Bounded size := by
  unfold atWord
  grind

@[grind .]
theorem bounded_eat (text : String) : (eat text).Bounded size := by
  unfold eat
  grind

@[grind .]
theorem bounded_eatWord (name : String) : (eatWord name).Bounded size := by
  unfold eatWord
  grind

@[grind .]
theorem bounded_eatTyped (text : String) : (eatTyped text).Bounded size := by
  unfold eatTyped
  grind

@[grind .]
theorem bounded_eatTypedWord (name : String) : (eatTypedWord name).Bounded size := by
  unfold eatTypedWord
  grind

@[grind .]
theorem bounded_expect (text : String) : (expect text).Bounded size := by
  unfold expect
  grind

@[grind .]
theorem bounded_expectWord (name : String) : (expectWord name).Bounded size := by
  unfold expectWord
  grind

@[grind .]
theorem bounded_atChar (c : Char) : (atChar c).Bounded size := by
  unfold atChar
  grind

@[grind .]
theorem bounded_eatChar (c : Char) : (eatChar c).Bounded size := by
  unfold eatChar
  grind

@[grind .]
theorem bounded_expectChar (c : Char) : (expectChar c).Bounded size := by
  unfold expectChar
  grind

@[grind .]
theorem bounded_semicolon : semicolon.Bounded size := by
  unfold semicolon
  grind

@[grind .]
theorem bounded_endStatement : endStatement.Bounded size := by
  unfold endStatement
  grind

@[grind .]
theorem bounded_modifier? (words : List String) : (modifier? words).Bounded size := by
  unfold modifier?
  grind

@[grind .]
theorem bounded_spanFrom {start : Nat} (inside : start ≤ size) : (spanFrom start).Bounded size := by
  unfold spanFrom
  grind

@[grind ←]
theorem bounded_commaListEnd {close : String} {item : Reader α} (each : item.Bounded size) :
    (commaListEnd close item).Bounded size := by
  unfold commaListEnd
  refine bounded_bind (bounded_collect ?_) fun items within => ?_
  · refine bounded_bind (bounded_atPunct close) fun atEnd _ => ?_
    split
    · exact bounded_pure within_none
    · exact bounded_bind each fun a within => by grind
  · refine bounded_bind (bounded_expect close) fun _ _ => bounded_pure ⟨?_, ?_⟩
    · grind
    · grind

@[grind ←]
theorem bounded_commaList {close : String} {item : Reader α} (each : item.Bounded size) :
    (commaList close item).Bounded size := by
  unfold commaList
  grind

@[grind ←]
theorem bounded_angleList {item : Reader α} (each : item.Bounded size) :
    (angleList item).Bounded size := by
  unfold angleList
  refine bounded_bind (bounded_collect ?_) fun items within => ?_
  · grind
  · grind

/-- An escape without meaning lies in the piece of text that it is found in. -/
@[grind ←]
theorem bounded_chunk {opened : Nat} {isTagged : Bool} {substitution : Reader Unit}
    (inside : opened ≤ size) (inner : substitution.Bounded size) :
    (chunk opened isTagged substitution).Bounded size := by
  unfold chunk
  refine bounded_ask (fun _ _ => rfl) fun cursor sound => ?_
  have escape (n : Nat) (test : List Char → Bool) (before : Nat)
      (found : firstEscape? test (cursor.rest.take n) = some before) :
      cursor.token.stop + before ≤ size := by
    have first := lt_of_firstEscape? found
    have piece := byteSize_take_le n cursor.rest
    have rest := sound.fits.rest
    omega
  dsimp -zeta only
  extract_lets later onward
  have laterBounded (u : Unit) : (later u).Bounded size := bounded_pure (by grind)
  have onwardBounded (u : Unit) : (onward u).Bounded size := by
    unfold onward
    split
    · exact bounded_bind (bounded_throw inside) fun _ _ => laterBounded ()
    · exact bounded_bind (bounded_skip _) fun _ _ => laterBounded ()
    · refine bounded_bind (bounded_skip _) fun _ _ => bounded_bind inner fun _ _ => ?_
      refine bounded_bind (bounded_atPunct _) fun _ _ => ?_
      split
      · exact laterBounded ()
      · exact bounded_bind bounded_fail fun _ _ => laterBounded ()
  split
  · exact onwardBounded ()
  · split
    · next before found =>
      exact bounded_bind (bounded_throw (escape _ _ _ found)) fun _ _ => onwardBounded ()
    · exact onwardBounded ()

@[grind ←]
theorem bounded_template {isTagged : Bool} {substitution : Reader Unit}
    (inner : substitution.Bounded size) : (template isTagged substitution).Bounded size := by
  unfold template
  grind

end Reader

end TypedSvelte.Script
