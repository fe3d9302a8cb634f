import TypedSvelte.Proofs.Script.Gaps
import TypedSvelte.Script.Parse

/-!
# Where cursors stand

The texts that a cursor knows are what the script has from the offsets on that the cursor gives for
them. Wherever it is moved this stays so, and it never moves back (`Cursor.Leads.sits`). So whatever
a reader does, it goes on from a place in the script at or behind the one where it began.
-/
namespace TypedSvelte.Script

/-- The text has `rest` from byte `offset` on. -/
def Resumes (text : List Char) (offset : Nat) (rest : List Char) : Prop :=
  ∃ before, text = before ++ rest ∧ byteSize before = offset

section

variable {text rest : List Char} {offset n : Nat}

theorem Resumes.append {first second : List Char} (here : Resumes text offset (first ++ second)) :
    Resumes text (offset + byteSize first) second := by
  obtain ⟨before, rfl, rfl⟩ := here
  exact ⟨before ++ first, (List.append_assoc ..).symm, byteSize_append before first⟩

theorem Resumes.drop (here : Resumes text offset rest) (n : Nat) :
    Resumes text (offset + byteSize (rest.take n)) (rest.drop n) :=
  Resumes.append ((List.take_append_drop n rest).symm ▸ here)

theorem Resumes.trans {more : List Char} {inner : Nat} (here : Resumes text offset rest)
    (there : Resumes rest inner more) : Resumes text (inner + offset) more := by
  obtain ⟨before, rfl, rfl⟩ := there
  exact Nat.add_comm .. ▸ here.append

/-- What a text has from an offset on is known. -/
theorem Resumes.unique {first second : List Char}
    (here : Resumes text offset first) (there : Resumes text offset second) : first = second := by
  obtain ⟨before, parts, size⟩ := here
  obtain ⟨other, otherParts, otherSize⟩ := there
  have whole : before ++ first = other ++ second := parts.symm.trans otherParts
  rw [eq_of_byteSize_eq whole (size.trans otherSize.symm)] at whole
  exact List.append_cancel_left whole

/-- What resumes a text begins on a character boundary. -/
theorem Resumes.isCut {source : String} (here : Resumes source.toList offset rest) :
    IsCut source offset := by
  obtain ⟨before, parts, rfl⟩ := here
  refine isCut_iff.2 ⟨String.ofList before, String.ofList rest, ?_, ?_⟩
  · rw [← String.ofList_append, ← parts, String.ofList_toList]
  · exact utf8ByteSize_ofList before

/-- The text of a span is what the text has from its beginning on, up to its end. -/
theorem resumes_text {content : String} {start stop : Nat} (first : IsCut content start)
    (last : IsCut content stop) (ordered : start ≤ stop) :
    (∃ after, Resumes content.toList start (((Span.mk start stop).text content).toList ++ after)) ∧
      byteSize ((Span.mk start stop).text content).toList = stop - start := by
  obtain ⟨text, slice⟩ := exists_slice? first last ordered
  have same : (Span.mk start stop).text content = text := by rw [Span.text, slice, Option.getD_some]
  obtain ⟨before, after, parts, place, size⟩ := (slice?_eq_some_iff _ _ _ _).1 slice
  rw [same, byteSize_toList]
  refine ⟨⟨after.toList, before.toList, ?_, ?_⟩, by omega⟩
  · rw [parts, String.toList_append, String.toList_append, List.append_assoc]
  · rw [byteSize_toList, place]

private theorem text_of_unclosed (strict : Bool) (gap : Gap) (afterBreak : Bool) (faults : List Nat)
    {opened : Nat}
    (unclosed : (passGap strict gap offset afterBreak faults text).unclosed = some opened) :
    (passGap strict gap offset afterBreak faults text).text = [] := by
  fun_induction passGap strict gap offset afterBreak faults text
  all_goals first
    | rfl
    | (rename_i ih; exact ih unclosed)
    | cases unclosed

/-- The first token behind a place in the text: what is told of it and of the text behind it. -/
structure Lexed.Follows (text : List Char) (offset : Nat) (l : Lexed) : Prop where
  behind : offset ≤ l.token.start
  forward : l.token.start ≤ l.token.stop
  token : Resumes text l.token.start l.text
  rest : Resumes text l.token.stop l.rest

theorem follows_lex (strict : Bool) (here : Resumes text offset rest) :
    (lex strict offset rest).Follows text offset := by
  obtain ⟨passed, parts, reached⟩ := passes_passGap strict .blank offset false [] rest
  rw [parts] at here
  have atToken := here.append
  rw [← reached] at atToken
  have behind : offset ≤ (passGap strict .blank offset false [] rest).offset :=
    reached ▸ Nat.le_add_right offset _
  unfold lex
  dsimp only
  split
  · rename_i opened unclosed
    rw [text_of_unclosed strict .blank false [] unclosed] at atToken
    exact ⟨behind, Nat.le_refl _, atToken, atToken⟩
  · exact ⟨behind, Nat.le_add_right _ _, atToken, atToken.drop _⟩

end

/-- The texts of the cursor are what `text` has from its offsets on, and the tokens read last and
next are in order. -/
structure Cursor.Sits (text : List Char) (cursor : Cursor) : Prop where
  token : Resumes text cursor.token.start cursor.text
  rest : Resumes text cursor.token.stop cursor.rest
  previous : ∃ rest, Resumes text cursor.previous rest
  behind : cursor.previous ≤ cursor.token.start
  forward : cursor.token.start ≤ cursor.token.stop

namespace Cursor

variable {text rest : List Char} {offset n : Nat} {origin cursor : Cursor}

theorem Sits.moveTo (cursor : Cursor) (here : Resumes text offset rest) :
    (cursor.moveTo offset rest).Sits text :=
  have next := follows_lex true here
  ⟨next.token, next.rest, ⟨rest, here⟩, next.behind, next.forward⟩

theorem sits_start (strict : Bool) (here : Resumes text offset rest) :
    (start strict offset rest).Sits text :=
  have first := follows_lex strict here
  ⟨first.token, first.rest, ⟨text, [], rfl, rfl⟩, Nat.zero_le _, first.forward⟩

theorem Sits.narrow (sits : cursor.Sits text) : cursor.narrow.Sits text := by
  have here := sits.token
  unfold Cursor.narrow
  split
  · exact sits
  · rename_i c rest ahead
    rw [ahead] at here
    have split : Resumes text cursor.token.start ([c] ++ rest) := here
    exact ⟨ahead ▸ here, split.append, sits.previous, sits.behind, Nat.le_add_right _ _⟩

theorem sits_standing (strict : Bool) (text : List Char) : (standing strict text).Sits text :=
  ⟨⟨[], rfl, rfl⟩, ⟨_, (List.take_append_drop _ _).symm, rfl⟩, ⟨text, [], rfl, rfl⟩, Nat.le_refl _,
    Nat.zero_le _⟩

theorem Sits.rejoin {next : Cursor} (here : cursor.Sits text) (inner : next.Sits cursor.text) :
    (next.rejoin cursor).Sits text where
  token := here.token.trans inner.token
  rest := here.token.trans inner.rest
  previous := inner.previous.imp fun _ => here.token.trans
  behind := Nat.add_le_add_right inner.behind _
  forward := Nat.add_le_add_right inner.forward _

/-- A cursor is moved onward to `offset`, which is not in front of its token. -/
private theorem Sits.moved {token previous : Nat} (sits : cursor.Sits text)
    (onward : token ≤ cursor.token.start ∧ previous ≤ cursor.previous)
    (there : Resumes text offset rest) (behind : cursor.token.start ≤ offset) :
    (cursor.moveTo offset rest).Sits text ∧ token ≤ (cursor.moveTo offset rest).token.start ∧
      previous ≤ (cursor.moveTo offset rest).previous := by
  have next := Sits.moveTo cursor there
  have before := sits.behind
  have start : offset ≤ (cursor.moveTo offset rest).token.start := next.behind
  exact ⟨next, by omega, Nat.le_trans onward.2 (Nat.le_trans before behind)⟩

/-- A cursor that is moved stays in the text, and neither the token to be read next nor the one read
last moves back. -/
theorem Leads.sits (leads : origin.Leads cursor) (here : origin.Sits text) :
    cursor.Sits text ∧ origin.token.start ≤ cursor.token.start ∧
      origin.previous ≤ cursor.previous := by
  induction leads with
  | refl => exact ⟨here, Nat.le_refl _, Nat.le_refl _⟩
  | skip _ n ih =>
    exact ih.1.moved ih.2 (ih.1.rest.drop n) (Nat.le_trans ih.1.forward (Nat.le_add_right _ _))
  | pass _ n ih => exact ih.1.moved ih.2 (ih.1.token.drop n) (Nat.le_add_right _ _)
  | narrow _ ih =>
    refine ⟨ih.1.narrow, ?_⟩
    unfold Cursor.narrow
    split
    · exact ih.2
    · exact ih.2
  | note _ _ ih | noteToken _ _ ih | identify _ ih =>
    exact ⟨⟨ih.1.token, ih.1.rest, ih.1.previous, ih.1.behind, ih.1.forward⟩, ih.2⟩

end Cursor

/-- A script is read from its beginning, or from the end of a first line that begins with `#!`. -/
theorem exists_first (text : List Char) :
    ∃ strict offset rest, Cursor.first text = .start strict offset rest ∧
      Resumes text offset rest := by
  unfold Cursor.first
  split
  · have line := List.prefix_iff_eq_append.1 (List.takeWhile_prefix (l := text) (!isLineBreak ·))
    exact ⟨_, _, _, rfl, _, line.symm, rfl⟩
  · exact ⟨_, _, _, rfl, [], rfl, rfl⟩

theorem sits_first (text : List Char) : (Cursor.first text).Sits text := by
  obtain ⟨strict, offset, rest, first, here⟩ := exists_first text
  exact first ▸ Cursor.sits_start strict here

namespace Reader

variable {α β : Type} {context : Context} {cursor last : Cursor}

theorem run_pure {a b : α} : (Pure.pure a : Reader α).run context cursor = .ok b last ↔
    a = b ∧ cursor = last := by
  constructor
  · rintro ⟨⟩
    exact ⟨rfl, rfl⟩
  · rintro ⟨rfl, rfl⟩
    rfl

/-- A reader that goes on after another one has read what the other gave. -/
theorem run_bind {reader : Reader α} {next : α → Reader β} {b : β}
    (read : (reader >>= next).run context cursor = .ok b last) :
    ∃ a between, reader.run context cursor = .ok a between ∧
      (next a).run context between = .ok b last := by
  change (Reader.bind reader next).run context cursor = .ok b last at read
  unfold Reader.bind at read
  dsimp only at read
  split at read
  · rename_i a between first
    exact ⟨a, between, first, read⟩
  · cases read

theorem leads_of_run {reader : Reader α} {a : α} (read : reader.run context cursor = .ok a last) :
    cursor.Leads last := by
  have leads := reader.leads context cursor
  rw [read] at leads
  exact leads

/-- All that the reader gives satisfies `P`. -/
def Yields (P : α → Prop) (reader : Reader α) : Prop :=
  ∀ context cursor a last, reader.run context cursor = .ok a last → P a

theorem yields_pure {P : α → Prop} {a : α} (holds : P a) : (Pure.pure a : Reader α).Yields P := by
  intro _ _ _ _ read
  exact (run_pure.1 read).1 ▸ holds

theorem yields_bind {P : α → Prop} {Q : β → Prop} {reader : Reader α} {next : α → Reader β}
    (first : reader.Yields P) (rest : ∀ a, P a → (next a).Yields Q) : (reader >>= next).Yields Q := by
  intro _ _ _ _ read
  obtain ⟨a, _, given, read⟩ := run_bind read
  exact rest a (first _ _ _ _ given) _ _ _ _ read

/-- What is given last counts. -/
theorem yields_of_last {Q : β → Prop} {reader : Reader α} {next : α → Reader β}
    (rest : ∀ a, (next a).Yields Q) : (reader >>= next).Yields Q :=
  yields_bind (fun _ _ _ _ _ => True.intro) fun a _ => rest a

theorem Yields.of_run {P : α → Prop} {reader : Reader α} {a : α} (yields : reader.Yields P)
    (read : reader.run context cursor = .ok a last) : P a :=
  yields _ _ _ _ read

theorem yields_of_fail {P : α → Prop} : (fail : Reader α).Yields P := by
  intro context cursor _ _ read
  obtain ⟨t, _, _, read⟩ := run_bind read
  split at read
  · cases read
  · obtain ⟨start, _, _, read⟩ := run_bind read
    cases read

end Reader

end TypedSvelte.Script
