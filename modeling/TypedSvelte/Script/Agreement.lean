import TypedSvelte.Script.Cursor
import TypedSvelte.Script.Lookahead

/-!
# Cursors in texts that agree

Two texts may agree up to a byte `limit` and differ behind it. Two cursors that stand at the same
place before it (`Cursor.Alike`) differ in the text behind and, if that was needed to tell what it
is, in the next token. They stay alike wherever they are moved before the limit.
-/
namespace TypedSvelte.Script.Cursor

/-- The next token has been recognised by what comes before byte `limit`. -/
def isSettled (cursor : Cursor) (limit : Nat) : Bool := cursor.token.isSettled cursor.rest limit

/-- The cursor with the first token of the text behind the token read last as its next one, whose
faults may be noted. -/
def reach (cursor : Cursor) (noted : Bool) (text : List Char) : Cursor :=
  let next := lex true cursor.previous text
  { cursor with
    token := next.token, text := next.text, rest := next.rest
    faults := (if noted then next.token.faults.reverse else []) ++ cursor.faults }

/-- The cursors stand at the same place in texts that agree up to byte `limit`, where the first one
goes on with `first` and the second one with `second`. -/
inductive Alike (limit : Nat) (first second : List Char) : Cursor → Cursor → Prop
  /-- The next token is known. -/
  | inside (cursor : Cursor) (text rest : List Char) (filled : text ≠ [])
      (toLimit : cursor.token.start + byteSize text = limit)
      (restToLimit : cursor.token.stop + byteSize rest = limit) :
      Alike limit first second { cursor with text := text ++ first, rest := rest ++ first }
        { cursor with text := text ++ second, rest := rest ++ second }
  /-- The next token may have been recognised by what comes behind the limit. -/
  | reaching (cursor : Cursor) (noted : Bool) (text : List Char)
      (toLimit : cursor.previous + byteSize text = limit) :
      Alike limit first second (cursor.reach noted (text ++ first))
        (cursor.reach noted (text ++ second))

section

variable {limit : Nat} {first second : List Char} {a b : Cursor}

theorem Alike.previous (alike : Alike limit first second a b) : b.previous = a.previous := by
  cases alike <;> rfl

theorem Alike.identify (alike : Alike limit first second a b) :
    Alike limit first second a.identify b.identify := by
  cases alike with
  | inside cursor text rest filled toLimit restToLimit =>
    exact .inside cursor.identify text rest filled toLimit restToLimit
  | reaching cursor noted text toLimit =>
    exact .reaching cursor.identify noted text toLimit

/-- If the next token of one of two cursors that are alike is settled, it is that of the other. -/
theorem Alike.settle (alike : Alike limit first second a b) (settled : a.isSettled limit = true) :
    ∃ (cursor : Cursor) (text rest : List Char), text ≠ [] ∧ cursor.token.start + byteSize text = limit ∧
      cursor.token.stop + byteSize rest = limit ∧
      a = { cursor with text := text ++ first, rest := rest ++ first } ∧
      b = { cursor with text := text ++ second, rest := rest ++ second } := by
  cases alike with
  | inside cursor text rest filled toLimit restToLimit =>
    exact ⟨cursor, text, rest, filled, toLimit, restToLimit, rfl, rfl⟩
  | reaching cursor noted text toLimit =>
    obtain ⟨ahead, rest, filled, here, there, size, restSize⟩ :=
      lex_append (y := second) toLimit settled
    refine ⟨cursor.reach noted (text ++ first), ahead, rest, filled, size, restSize, ?_, ?_⟩
    · unfold reach
      dsimp only
      rw [here]
    · unfold reach
      dsimp only
      rw [there]

theorem Alike.token (alike : Alike limit first second a b) (settled : a.isSettled limit = true) :
    b.token = a.token := by
  obtain ⟨_, _, _, _, _, _, rfl, rfl⟩ := alike.settle settled
  rfl

theorem Alike.note (alike : Alike limit first second a b) (settled : a.isSettled limit = true)
    (offset : Nat) : Alike limit first second (a.note offset) (b.note offset) := by
  obtain ⟨cursor, text, rest, filled, toLimit, restToLimit, rfl, rfl⟩ := alike.settle settled
  exact .inside (cursor.note offset) text rest filled toLimit restToLimit

/-- So many characters of a text lie before the limit, where its rest begins. -/
private theorem length_le_of_size {n offset : Nat} {text : List Char}
    (toLimit : offset + byteSize text = limit) (long : n ≤ (text ++ first).length)
    (inside : offset + byteSize ((text ++ first).take n) ≤ limit) : n ≤ text.length :=
  inside_of_size long (by omega)

private theorem size_drop {n offset : Nat} {text : List Char}
    (toLimit : offset + byteSize text = limit) :
    offset + byteSize (text.take n) + byteSize (text.drop n) = limit := by
  rw [Nat.add_assoc, byteSize_take_add_drop, toLimit]

theorem Alike.skip (alike : Alike limit first second a b) (settled : a.isSettled limit = true)
    {n : Nat} (long : n ≤ a.rest.length)
    (inside : a.token.stop + byteSize (a.rest.take n) ≤ limit) (noted : Bool) :
    Alike limit first second ((a.skip n).noteToken noted) ((b.skip n).noteToken noted) := by
  obtain ⟨cursor, text, rest, -, toLimit, restToLimit, rfl, rfl⟩ := alike.settle settled
  have within := length_le_of_size restToLimit long inside
  have moved (more : List Char) :
      (skip { cursor with text := text ++ more, rest := rest ++ more } n).noteToken noted =
        reach { cursor with
          previous := cursor.token.stop + byteSize (rest.take n)
          lastWord := cursor.token.asWord?.or cursor.lastWord }
          noted (rest.drop n ++ more) := by
    unfold skip
    dsimp only
    rw [List.take_append_of_le_length within, List.drop_append_of_le_length within]
    rfl
  rw [moved, moved]
  exact .reaching _ noted _ (size_drop restToLimit)

theorem Alike.pass (alike : Alike limit first second a b) (settled : a.isSettled limit = true)
    {n : Nat} (long : n ≤ a.text.length)
    (inside : a.token.start + byteSize (a.text.take n) ≤ limit) (noted : Bool) :
    Alike limit first second ((a.pass n).noteToken noted) ((b.pass n).noteToken noted) := by
  obtain ⟨cursor, text, rest, -, toLimit, restToLimit, rfl, rfl⟩ := alike.settle settled
  have within := length_le_of_size toLimit long inside
  have moved (more : List Char) :
      (pass { cursor with text := text ++ more, rest := rest ++ more } n).noteToken noted =
        reach { cursor with
          previous := cursor.token.start + byteSize (text.take n)
          lastWord := cursor.token.asWord?.or cursor.lastWord }
          noted (text.drop n ++ more) := by
    unfold pass
    dsimp only
    rw [List.take_append_of_le_length within, List.drop_append_of_le_length within]
    rfl
  rw [moved, moved]
  exact .reaching _ noted _ (size_drop toLimit)

theorem Alike.peek (alike : Alike limit first second a b) (settled : a.isSettled limit = true)
    (next : (lex true a.token.stop a.rest).token.isSettled (lex true a.token.stop a.rest).rest limit =
      true) :
    (lex true b.token.stop b.rest).token = (lex true a.token.stop a.rest).token := by
  obtain ⟨cursor, text, rest, -, -, restToLimit, rfl, rfl⟩ := alike.settle settled
  obtain ⟨_, _, -, -, same, -⟩ := lex_append (y := second) restToLimit next
  dsimp only
  rw [same]

/-- The characters before the limit are the same in both texts. -/
theorem Alike.take_text (alike : Alike limit first second a b) (settled : a.isSettled limit = true)
    {n : Nat} (long : n ≤ a.text.length)
    (inside : a.token.start + byteSize (a.text.take n) ≤ limit) : b.text.take n = a.text.take n := by
  obtain ⟨cursor, text, rest, -, toLimit, -, rfl, rfl⟩ := alike.settle settled
  have within := length_le_of_size toLimit long inside
  dsimp only
  rw [List.take_append_of_le_length within, List.take_append_of_le_length within]

theorem Alike.take_rest (alike : Alike limit first second a b) (settled : a.isSettled limit = true)
    {n : Nat} (long : n ≤ a.rest.length)
    (inside : a.token.stop + byteSize (a.rest.take n) ≤ limit) : b.rest.take n = a.rest.take n := by
  obtain ⟨cursor, text, rest, -, -, restToLimit, rfl, rfl⟩ := alike.settle settled
  have within := length_le_of_size restToLimit long inside
  dsimp only
  rw [List.take_append_of_le_length within, List.take_append_of_le_length within]

theorem Alike.narrow (alike : Alike limit first second a b) (settled : a.isSettled limit = true) :
    Alike limit first second a.narrow b.narrow := by
  obtain ⟨cursor, text, rest, filled, toLimit, restToLimit, rfl, rfl⟩ := alike.settle settled
  cases text with
  | nil => exact absurd rfl filled
  | cons c others =>
    refine .inside
      { cursor with
        token :=
          { cursor.token with
            kind := .punct (String.ofList [c]), stop := cursor.token.start + c.utf8Size } }
      (c :: others) others filled toLimit ?_
    rw [Nat.add_assoc]
    exact toLimit

end

end TypedSvelte.Script.Cursor
