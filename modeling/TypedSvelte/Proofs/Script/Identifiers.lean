import TypedSvelte.Proofs.Script.ItemReading

/-!
# Where identifiers stand

An identifier of an outline is a word that has been read, and it is spelled at its place in the
script (`spells_identifier`). A cursor knows this of its next token, of the word read last and of the
identifiers that it has come by, wherever it is moved (`Cursor.Leads.spelled`).
-/
namespace TypedSvelte.Script

/-- The longest name that the text has at the beginning of a place is this one, and it takes up the
place. Escapes stand for the characters that they mean. -/
def Spells (text : List Char) (place : Span) (name : String) : Prop :=
  ∃ rest length, Resumes text place.start rest ∧ name? rest = some (name.toList, length) ∧
    place.stop = place.start + byteSize (rest.take length)

/-- At most one name is spelled at a place. -/
theorem Spells.unique {text : List Char} {place : Span} {name other : String}
    (spells : Spells text place name) (spellsOther : Spells text place other) : name = other := by
  obtain ⟨rest, length, here, spelled, _⟩ := spells
  obtain ⟨again, otherLength, there, spelledAgain, _⟩ := spellsOther
  rw [here.unique there] at spelled
  have same := spelled.symm.trans spelledAgain
  simp only [Option.some.injEq, Prod.mk.injEq, String.toList_inj] at same
  exact same.1

variable {text rest : List Char} {offset n : Nat}

/-- A token is a word only where a name begins. -/
theorem name?_of_piece {strict : Bool} {name : String} {escaped : Bool}
    (isWord : (piece strict offset text).kind = .word name escaped) :
    name? text = some (name.toList, (piece strict offset text).length) := by
  have spelled : (wordPiece strict offset text).kind = .word name escaped →
      name? text = some (name.toList, (wordPiece strict offset text).length) := by
    unfold wordPiece
    intro isWord
    split at isWord
    · rename_i chars length found
      dsimp only at isWord
      split at isWord
      · cases isWord
      · rename_i plain
        cases isWord
        dsimp only
        rw [found, if_neg plain, String.toList_ofList]
    · cases isWord
  unfold piece at isWord ⊢
  cases text with
  | nil => cases isWord
  | cons c rest =>
    dsimp only at isWord ⊢
    split at isWord
    · rename_i word
      rw [if_pos word]
      exact spelled isWord
    · exfalso
      split at isWord
      · rcases numberPiece_kind strict offset (c :: rest) with isNumber | ⟨_, invalid⟩
        · cases isWord.symm.trans isNumber
        · cases isWord.symm.trans invalid
      · split at isWord
        · rcases stringPiece_kind strict offset c rest with ⟨_, isString⟩ | ⟨_, invalid⟩
          · cases isWord.symm.trans isString
          · cases isWord.symm.trans invalid
        · split at isWord <;> split at isWord <;> cases isWord

/-- A word that comes first in a text is spelled where it stands. -/
theorem spells_lex (strict : Bool) (here : Resumes text offset rest) :
    ∀ word ∈ (lex strict offset rest).token.asWord?, Spells text word.place word.name := by
  have atToken := (follows_lex strict here).token
  intro word isWord
  unfold Token.asWord? at isWord
  split at isWord
  · rename_i name escaped kind
    cases isWord
    unfold lex at kind atToken ⊢
    generalize passGap strict .blank offset false [] rest = gap at kind atToken ⊢
    cases unclosed : gap.unclosed with
    | some opened =>
      simp only [unclosed] at kind
      cases kind
    | none =>
      simp only [unclosed] at kind atToken ⊢
      exact ⟨_, _, atToken, name?_of_piece kind, rfl⟩
  · cases isWord

/-- A word of a text that begins at a token is spelled in the text around it. -/
private theorem Spells.shift {before : List Char} {place : Span} {name : String}
    (here : Resumes text offset before) (spells : Spells before place name) :
    Spells text (place.shift offset) name := by
  obtain ⟨rest, length, there, spelled, stop⟩ := spells
  refine ⟨rest, length, here.trans there, spelled, ?_⟩
  dsimp only [Span.shift]
  omega

namespace Cursor

/-- The next token, if it is a word, the word read last and the identifiers read are spelled where
they stand. -/
structure Spelled (text : List Char) (cursor : Cursor) : Prop where
  token : ∀ word ∈ cursor.token.asWord?, Spells text word.place word.name
  lastWord : ∀ word ∈ cursor.lastWord, Spells text word.place word.name
  identifiers : ∀ i ∈ cursor.identifiers, Spells text i.place i.name

variable {origin cursor : Cursor}

private theorem spelled_start (strict : Bool) (here : Resumes text offset rest) :
    (start strict offset rest).Spelled text :=
  ⟨spells_lex strict here, nofun, nofun⟩

theorem Spelled.moveTo (spelled : cursor.Spelled text) (here : Resumes text offset rest) :
    (cursor.moveTo offset rest).Spelled text := by
  refine ⟨spells_lex true here, fun word isLast => ?_, spelled.identifiers⟩
  rcases Option.or_eq_some_iff.1 isLast with now | ⟨_, before⟩
  · exact spelled.token word now
  · exact spelled.lastWord word before

private theorem spelled_standing (strict : Bool) (text : List Char) :
    (standing strict text).Spelled text := by
  refine ⟨fun word isWord => ?_, nofun, nofun⟩
  unfold Token.asWord? at isWord
  split at isWord
  · rename_i name escaped kind
    cases isWord
    exact ⟨text, _, ⟨[], rfl, rfl⟩, name?_of_piece kind, (Nat.zero_add _).symm⟩
  · cases isWord

private theorem exists_of_asWord?_shift {t : Token} {word : Identifier}
    (isWord : (t.shift offset).asWord? = some word) :
    ∃ there, t.asWord? = some there ∧ there.shift offset = word := by
  unfold Token.asWord? Token.shift TokenKind.shift at isWord
  unfold Token.asWord?
  cases kind : t.kind <;> rw [kind] at isWord <;> cases isWord
  exact ⟨_, rfl, rfl⟩

/-- Wherever a cursor is moved, the words that it knows are spelled where they stand. -/
theorem Leads.spelled (leads : origin.Leads cursor) (sits : origin.Sits text)
    (here : origin.Spelled text) : cursor.Spelled text := by
  induction leads with
  | refl => exact here
  | skip leads n ih => exact ih.moveTo ((leads.sits sits).1.rest.drop n)
  | pass leads n ih => exact ih.moveTo ((leads.sits sits).1.token.drop n)
  | narrow _ ih =>
    unfold Cursor.narrow
    split
    · exact ih
    · refine ⟨fun word isWord => ?_, ih.lastWord, ih.identifiers⟩
      cases isWord
  | note _ _ ih | noteToken _ _ ih => exact ⟨ih.token, ih.lastWord, ih.identifiers⟩
  | identify _ ih =>
    refine ⟨ih.token, ih.lastWord, fun i found => ?_⟩
    rcases List.mem_append.1 found with last | before
    · exact ih.lastWord i (Option.mem_toList.1 last)
    · exact ih.identifiers i before

private theorem Spelled.rejoin {next : Cursor} (spelled : cursor.Spelled text) (sits : cursor.Sits text)
    (inner : next.Spelled cursor.text) : (next.rejoin cursor).Spelled text := by
  refine ⟨fun word isWord => ?_, fun word isLast => ?_, fun i found => ?_⟩
  · obtain ⟨there, isNext, rfl⟩ := exists_of_asWord?_shift isWord
    exact (inner.token there isNext).shift sits.token
  · rcases Option.or_eq_some_iff.1 isLast with now | ⟨_, before⟩
    · obtain ⟨there, last, rfl⟩ := Option.map_eq_some_iff.1 now
      exact (inner.lastWord there last).shift sits.token
    · exact spelled.lastWord word before
  · rcases List.mem_append.1 found with now | before
    · obtain ⟨there, member, rfl⟩ := List.mem_map.1 now
      exact (inner.identifiers there member).shift sits.token
    · exact spelled.identifiers i before

private theorem Spelled.itemized {g : Grammar} {context : Context} {strict : Bool} {last : Cursor}
    {found : List Item} (spelled : cursor.Spelled text) (sits : cursor.Sits text)
    (itemized : Grammar.Itemized g context strict cursor found last) : last.Spelled text := by
  induction itemized with
  | done => exact spelled
  | @item strict cursor next last item later begins valid read others ih =>
    have leads := Reader.leads_of_run read
    have alone := sits_standing strict cursor.text
    exact ih (spelled.rejoin sits (leads.spelled alone (spelled_standing strict cursor.text)))
      (sits.rejoin (leads.sits alone).1)

end Cursor

/-- The identifiers of a script are spelled where they stand. -/
theorem spells_identifier {typed : Bool} {source : String} {outline : Outline}
    (parsed : parse typed source = .ok outline) :
    ∀ i ∈ outline.identifiers, Spells (withoutMark source.toList) i.place i.name := by
  obtain ⟨last, itemized, -, -, -, identifiers⟩ := (parse_eq_ok_iff rfl).1 parsed
  obtain ⟨strict, offset, rest, first, here⟩ := exists_first (withoutMark source.toList)
  have begun := Cursor.spelled_start strict here
  rw [← first] at begun
  have spelled := begun.itemized (sits_first _) itemized
  rw [identifiers]
  exact fun i found => spelled.identifiers i (List.mem_reverse.1 found)

end TypedSvelte.Script
