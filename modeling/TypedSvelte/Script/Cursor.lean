import TypedSvelte.Script.Outline
import TypedSvelte.Script.Token

/-!
# Cursors

How far a script has been read. A cursor moves over tokens and characters, and records faults and
identifiers on the way (`Cursor.Leads`). However it is moved, what it knows of the text stays within the
same number of bytes (`Cursor.Fits`).
-/
namespace TypedSvelte.Script

structure Cursor where
  /-- The token to be read next. -/
  token : Token
  /-- The text from that token on. -/
  text : List Char
  /-- The text after that token. -/
  rest : List Char
  /-- The end of the token read last. -/
  previous : Nat
  /-- The offsets of the faults noted, last to first. -/
  faults : List Nat
  /-- The word read last, an identifier or not. -/
  lastWord : Option Identifier
  /-- The identifiers read, last to first. -/
  identifiers : List Identifier
  deriving Repr, Inhabited

def Token.asWord? (t : Token) : Option Identifier :=
  match t.kind with
  | .word name _ => some ⟨⟨t.start, t.stop⟩, name⟩
  | _ => none

theorem byteSize_take_add_drop (n : Nat) (text : List Char) :
    byteSize (text.take n) + byteSize (text.drop n) = byteSize text := by
  induction text generalizing n with
  | nil => cases n <;> rfl
  | cons c rest ih =>
    cases n with
    | zero => exact Nat.zero_add _
    | succ n => exact (Nat.add_assoc _ _ _).trans (congrArg (c.utf8Size + ·) (ih n))

/-- What a gap passes is counted. -/
theorem size_passGap (strict : Bool) (gap : Gap) (offset : Nat) (afterBreak : Bool)
    (faults : List Nat) (text : List Char) :
    (passGap strict gap offset afterBreak faults text).offset +
      byteSize (passGap strict gap offset afterBreak faults text).text =
        offset + byteSize text := by
  fun_induction passGap strict gap offset afterBreak faults text
  all_goals first
    | rfl
    | (rename_i ih; exact ih.trans (Nat.add_assoc _ _ _))

namespace Cursor

/-- The next token, the text that it begins and the text after it lie within `size` bytes, and so
does the token read last. -/
structure Fits (size : Nat) (cursor : Cursor) : Prop where
  token : cursor.token.start + byteSize cursor.text ≤ size
  rest : cursor.token.stop + byteSize cursor.rest ≤ size
  previous : cursor.previous ≤ size

/-- The cursor moved past its next token, to the first token of a text at byte `offset`. -/
def moveTo (cursor : Cursor) (offset : Nat) (text : List Char) : Cursor :=
  let next := lex true offset text
  { cursor with
    token := next.token, text := next.text, rest := next.rest, previous := offset
    lastWord := cursor.token.asWord?.or cursor.lastWord }

/-- The cursor at the first token of a text at byte `offset`, which may be strict. -/
def start (strict : Bool) (offset : Nat) (text : List Char) : Cursor :=
  let first := lex strict offset text
  { token := first.token, text := first.text, rest := first.rest, previous := 0,
    faults := first.token.faults.reverse, lastWord := none, identifiers := [] }

/-- The cursor at the beginning of a text of its own, which begins with a token. -/
def standing (strict : Bool) (text : List Char) : Cursor :=
  let first := piece strict 0 text
  { token := ⟨first.kind, 0, byteSize (text.take first.length), false, []⟩
    text, rest := text.drop first.length, previous := 0
    faults := [], lastWord := none, identifiers := [] }

/-- Where a cursor stands that went on from `cursor` in a text of its own, which begins there. -/
def rejoin (next cursor : Cursor) : Cursor :=
  let offset := cursor.token.start
  { token := next.token.shift offset, text := next.text, rest := next.rest
    previous := next.previous + offset
    faults := next.faults.map (· + offset) ++ cursor.faults
    lastWord := (next.lastWord.map (·.shift offset)).or cursor.lastWord
    identifiers := next.identifiers.map (·.shift offset) ++ cursor.identifiers }

/-- The cursor moved behind the next token and `n` characters after it. -/
def skip (cursor : Cursor) (n : Nat) : Cursor :=
  cursor.moveTo (cursor.token.stop + byteSize (cursor.rest.take n)) (cursor.rest.drop n)

/-- The cursor moved behind `n` characters, those of the next token among them. -/
def pass (cursor : Cursor) (n : Nat) : Cursor :=
  cursor.moveTo (cursor.token.start + byteSize (cursor.text.take n)) (cursor.text.drop n)

/-- The cursor with the first character of the next token, which is punctuation, as the whole
token. -/
def narrow (cursor : Cursor) : Cursor :=
  match cursor.text with
  | [] => cursor
  | c :: rest =>
    let token :=
      { cursor.token with
        kind := .punct (String.ofList [c]), stop := cursor.token.start + c.utf8Size }
    { cursor with token, rest }

def note (cursor : Cursor) (offset : Nat) : Cursor :=
  { cursor with faults := offset :: cursor.faults }

/-- The cursor with the faults of the next token noted, if faults are. -/
def noteToken (cursor : Cursor) (noted : Bool) : Cursor :=
  { cursor with
    faults := (if noted then cursor.token.faults.reverse else []) ++ cursor.faults }

def identify (cursor : Cursor) : Cursor :=
  { cursor with identifiers := cursor.lastWord.toList ++ cursor.identifiers }

/-- A cursor can be moved from one place to another. -/
inductive Leads (origin : Cursor) : Cursor → Prop
  | refl : Leads origin origin
  | skip {cursor : Cursor} (leads : Leads origin cursor) (n : Nat) : Leads origin (cursor.skip n)
  | pass {cursor : Cursor} (leads : Leads origin cursor) (n : Nat) : Leads origin (cursor.pass n)
  | narrow {cursor : Cursor} (leads : Leads origin cursor) : Leads origin cursor.narrow
  | note {cursor : Cursor} (leads : Leads origin cursor) (offset : Nat) :
      Leads origin (cursor.note offset)
  | noteToken {cursor : Cursor} (leads : Leads origin cursor) (noted : Bool) :
      Leads origin (cursor.noteToken noted)
  | identify {cursor : Cursor} (leads : Leads origin cursor) : Leads origin cursor.identify

theorem Leads.trans {a b c : Cursor} (first : a.Leads b) (second : b.Leads c) : a.Leads c := by
  induction second with
  | refl => exact first
  | skip _ n ih => exact ih.skip n
  | pass _ n ih => exact ih.pass n
  | narrow _ ih => exact ih.narrow
  | note _ offset ih => exact ih.note offset
  | noteToken _ noted ih => exact ih.noteToken noted
  | identify _ ih => exact ih.identify

section

variable {size offset n : Nat} {text : List Char} {cursor : Cursor}

/-- The first token of a text lies in the text. -/
theorem size_lex (strict : Bool) (inside : offset + byteSize text ≤ size) :
    (lex strict offset text).token.start + byteSize (lex strict offset text).text ≤ size ∧
      (lex strict offset text).token.stop + byteSize (lex strict offset text).rest ≤ size := by
  have gap := size_passGap strict .blank offset false [] text
  unfold lex
  dsimp only
  split
  · dsimp only [byteSize]
    omega
  · constructor
    · exact Nat.le_trans (Nat.le_of_eq gap) inside
    · dsimp only
      rw [Nat.add_assoc, byteSize_take_add_drop]
      exact Nat.le_trans (Nat.le_of_eq gap) inside

theorem fits_start (strict : Bool) (inside : offset + byteSize text ≤ size) :
    (start strict offset text).Fits size :=
  have first := size_lex strict inside
  ⟨first.1, first.2, Nat.zero_le _⟩

theorem fits_standing (strict : Bool) (text : List Char) : (standing strict text).Fits (byteSize text) := by
  refine ⟨Nat.le_of_eq (Nat.zero_add _), ?_, Nat.zero_le _⟩
  dsimp only [standing]
  exact Nat.le_of_eq (byteSize_take_add_drop _ text)

theorem Fits.moveTo (inside : offset + byteSize text ≤ size) : (cursor.moveTo offset text).Fits size :=
  have next := size_lex true inside
  ⟨next.1, next.2, Nat.le_of_add_right_le inside⟩

variable (fits : cursor.Fits size)

include fits

theorem Fits.skip : (cursor.skip n).Fits size := by
  apply Fits.moveTo
  rw [Nat.add_assoc, byteSize_take_add_drop]
  exact fits.rest

theorem Fits.pass : (cursor.pass n).Fits size := by
  apply Fits.moveTo
  rw [Nat.add_assoc, byteSize_take_add_drop]
  exact fits.token

theorem Fits.narrow : cursor.narrow.Fits size := by
  have here := fits.token
  unfold Cursor.narrow
  split
  · exact fits
  · rename_i c rest ahead
    rw [ahead] at here
    refine ⟨?_, ?_, fits.previous⟩
    · rw [ahead]
      exact here
    · rw [Nat.add_assoc]
      exact here

theorem Fits.rejoin {next : Cursor} (inner : next.Fits (byteSize cursor.text)) :
    (next.rejoin cursor).Fits size := by
  have inside := fits.token
  have token := inner.token
  have rest := inner.rest
  have previous := inner.previous
  refine ⟨?_, ?_, ?_⟩ <;> dsimp only [Cursor.rejoin, Token.shift] <;> omega

end

/-- Wherever a cursor is moved, it fits. -/
theorem Leads.fits {size : Nat} {origin cursor : Cursor} (leads : origin.Leads cursor)
    (here : origin.Fits size) : cursor.Fits size := by
  induction leads with
  | refl => exact here
  | skip _ _ ih => exact ih.skip
  | pass _ _ ih => exact ih.pass
  | narrow _ ih => exact ih.narrow
  | note _ _ ih | noteToken _ _ ih | identify _ ih => exact ⟨ih.token, ih.rest, ih.previous⟩

end Cursor

end TypedSvelte.Script
