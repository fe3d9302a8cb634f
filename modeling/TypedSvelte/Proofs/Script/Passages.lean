import TypedSvelte.Proofs.Script.ItemOrder
import TypedSvelte.Proofs.Script.MovedItems

/-!
# Scripts put together from statements

A script may be put together from statements and gaps (`Passage`). Read as a whole, it has these
statements and no others if and only if each statement, read by itself before the text that follows
it, is what it is meant to be and leaves the reader in front of the next one (`Reads`).
`faces_and_reads_of_itemized` and `itemized_of_reads` are the two directions for any place on the
way, `isReadAs_iff` is the statement for a whole script.
-/
namespace TypedSvelte.Script

/-- A passage of a script. -/
inductive Passage where
  /-- Nothing but white space and comments is meant to be here. -/
  | gap (text : List Char)
  /-- A statement. Offsets in its kind count from where it begins. -/
  | statement (text : List Char) (kind : ItemKind)

namespace Passage

def chars : Passage → List Char
  | gap text | statement text _ => text

def isGap : Passage → Bool
  | gap _ => true
  | statement _ _ => false

end Passage

def spell (passages : List Passage) : List Char := passages.flatMap Passage.chars

/-- A statement as an item of its own, with this text. -/
def itemOf (text : List Char) (kind : ItemKind) : Item := ⟨⟨0, byteSize text⟩, kind⟩

/-- The items that the passages are meant to have, if they begin at byte `offset`. -/
def itemsOf (offset : Nat) : List Passage → List Item
  | [] => []
  | .gap text :: later => itemsOf (offset + byteSize text) later
  | .statement text kind :: later =>
    (itemOf text kind).shift offset :: itemsOf (offset + byteSize text) later

/-- The token, from which on the text is given, begins the first statement of the passages. If they
have none, it is the end of the text. -/
def Token.Begins (passages : List Passage) (text : List Char) (t : Token) : Prop :=
  match passages.dropWhile (·.isGap) with
  | [] => t.isEnd = true
  | ahead => t.isEnd = false ∧ (∀ fault, t.kind ≠ .invalid fault) ∧ text = spell ahead

/-- The cursor stands, without a fault, in front of the first statement of the passages, or at the
end of the text if they have none. -/
def Cursor.Faces (passages : List Passage) (cursor : Cursor) : Prop :=
  cursor.faults = [] ∧ cursor.token.Begins passages cursor.text

namespace Grammar

variable (g : Grammar) (context : Context)

/-- Read by itself before these passages, the text is a statement of this kind, and the passages are
what comes next. -/
def ReadsAs (strict : Bool) (text : List Char) (kind : ItemKind) (later : List Passage) : Prop :=
  ∃ next, (moduleItem g).run context (.standing strict (text ++ spell later)) =
      .ok (itemOf text kind) next ∧ next.Faces later

/-- Each statement is read by itself as what it is meant to be. The first one may be strict, the
others are. -/
def Reads : Bool → List Passage → Prop
  | _, [] => True
  | strict, .gap _ :: later => Reads strict later
  | strict, .statement text kind :: later =>
    text ≠ [] ∧ g.ReadsAs context strict text kind later ∧ Reads true later

end Grammar

section

variable {passages later : List Passage} {text : List Char} {cursor next : Cursor} {kind : ItemKind}

theorem spell_cons (passage : Passage) (later : List Passage) :
    spell (passage :: later) = passage.chars ++ spell later := List.flatMap_cons ..

private theorem spell_statement : spell (.statement text kind :: later) = text ++ spell later :=
  spell_cons ..

theorem faces_statement : cursor.Faces (.statement text kind :: later) ↔
    cursor.faults = [] ∧ cursor.token.isEnd = false ∧
      (∀ fault, cursor.token.kind ≠ .invalid fault) ∧ cursor.text = text ++ spell later := by
  rw [← spell_statement]
  exact Iff.rfl

private theorem isEnd_shift (t : Token) (offset : Nat) : (t.shift offset).isEnd = t.isEnd := by
  obtain ⟨kind, _⟩ := t
  cases kind <;> rfl

private theorem valid_shift (t : Token) (offset : Nat) :
    (∀ fault, (t.shift offset).kind ≠ .invalid fault) ↔ ∀ fault, t.kind ≠ .invalid fault := by
  obtain ⟨kind, _⟩ := t
  cases kind with
  | invalid fault => exact ⟨fun valid => absurd rfl (valid _), fun valid => absurd rfl (valid _)⟩
  | _ => exact ⟨fun _ => nofun, fun _ => nofun⟩

/-- What is in front of a cursor does not depend on what has been read before. -/
theorem faces_rejoin : (next.rejoin cursor).Faces passages ↔ cursor.faults = [] ∧ next.Faces passages := by
  have faults : (next.rejoin cursor).faults = [] ↔ cursor.faults = [] ∧ next.faults = [] := by
    change next.faults.map _ ++ cursor.faults = [] ↔ _
    rw [List.append_eq_nil_iff, List.map_eq_nil_iff]
    exact And.comm
  have token : (next.rejoin cursor).token = next.token.shift cursor.token.start := rfl
  unfold Cursor.Faces Token.Begins
  rw [faults, and_assoc, token, isEnd_shift, valid_shift]
  exact Iff.rfl

end

/-- A place in a text is known from what the text has from there on. -/
theorem Resumes.same_offset {text rest : List Char} {first second : Nat}
    (here : Resumes text first rest) (there : Resumes text second rest) : first = second := by
  obtain ⟨before, parts, rfl⟩ := here
  obtain ⟨other, otherParts, rfl⟩ := there
  rw [List.append_cancel_right (parts.symm.trans otherParts)]

namespace Grammar

variable {g : Grammar} {context : Context} {strict : Bool} {cursor last : Cursor} {offset : Nat}
  {passages : List Passage} {text : List Char} {found : List Item}

/-- If each statement is read by itself, they are read one behind another. -/
theorem itemized_of_reads (reads : g.Reads context strict passages) (faces : cursor.Faces passages)
    (here : cursor.Sits text) (begins : Resumes text offset (spell passages)) :
    ∃ last, g.Itemized context strict cursor (itemsOf offset passages) last ∧
      last.token.isEnd = true ∧ last.faults = [] := by
  induction passages generalizing strict cursor offset with
  | nil => exact ⟨cursor, .done, faces.2, faces.1⟩
  | cons passage later ih =>
    rw [spell_cons] at begins
    cases passage with
    | gap text => exact ih reads faces here begins.append
    | statement text kind =>
      obtain ⟨-, ⟨next, read, nextFaces⟩, others⟩ := reads
      obtain ⟨faultless, notEnd, valid, ahead⟩ := faces_statement.1 faces
      have start : cursor.token.start = offset := here.token.same_offset (ahead.symm ▸ begins)
      rw [← ahead] at read
      have inner := ((Reader.leads_of_run read).sits (Cursor.sits_standing strict cursor.text)).1
      obtain ⟨last, itemized, ends⟩ := ih others (faces_rejoin.2 ⟨faultless, nextFaces⟩)
        (here.rejoin inner) begins.append
      refine ⟨last, ?_, ends⟩
      have item := Itemized.item notEnd valid read itemized
      rw [start] at item
      exact item

/-- If the statements are read one behind another without a fault, each is read by itself. -/
theorem faces_and_reads_of_itemized (itemized : g.Itemized context strict cursor found last)
    (ends : last.token.isEnd = true) (faultless : last.faults = [])
    (filled : ∀ item ∈ found, item.span.start < item.span.stop) (same : found = itemsOf offset passages)
    (here : cursor.Sits text) (begins : Resumes text offset (spell passages)) :
    cursor.Faces passages ∧ g.Reads context strict passages := by
  induction passages generalizing strict cursor found offset with
  | nil =>
    cases itemized with
    | done => exact ⟨⟨faultless, ends⟩, True.intro⟩
    | item => cases same
  | cons passage later ih =>
    rw [spell_cons] at begins
    cases passage with
    | gap text => exact ih itemized filled same here begins.append
    | statement text kind =>
      cases itemized with
      | done => cases same
      | @item _ _ next _ item others notEnd valid read itemized =>
        obtain ⟨first, rest⟩ := List.cons_eq_cons.1 same
        have alone := Cursor.sits_standing strict cursor.text
        have inner := ((Reader.leads_of_run read).sits alone).1
        have start : cursor.token.start = offset := by
          have starts := congrArg (·.span.start) first
          have span := (keptFrom_of_moduleItem alone read).1
          change item.span.start + _ = 0 + offset at starts
          rw [span] at starts
          exact Nat.add_left_cancel starts
        rw [start] at first
        have ahead := (start ▸ here.token).unique begins
        cases shift_inj first
        obtain ⟨atItem, others⟩ := List.forall_mem_cons.1 filled
        obtain ⟨faces, reads⟩ := ih itemized others rest (here.rejoin inner) begins.append
        obtain ⟨unfaulted, nextFaces⟩ := faces_rejoin.1 faces
        have present : text ≠ [] := by
          rintro rfl
          exact Nat.lt_irrefl _ atItem
        rw [ahead] at read
        exact ⟨faces_statement.2 ⟨unfaulted, notEnd, valid, ahead⟩, present, ⟨next, read, nextFaces⟩,
          reads⟩

/-- Each statement takes a character of the text. -/
private theorem length_itemsOf_le (reads : g.Reads context strict passages) :
    (itemsOf offset passages).length ≤ (spell passages).length := by
  induction passages generalizing strict offset with
  | nil => exact Nat.le_refl _
  | cons passage later ih =>
    rw [spell_cons, List.length_append]
    cases passage with
    | gap text => exact Nat.le_trans (ih reads) (Nat.le_add_left _ _)
    | statement text kind =>
      have size := List.length_pos_of_ne_nil reads.1
      rw [itemsOf, List.length_cons, Nat.add_comm]
      exact Nat.add_le_add size (ih reads.2.2)

private theorem filled_of_reads (reads : g.Reads context strict passages) :
    ∀ item ∈ itemsOf offset passages, item.span.start < item.span.stop := by
  induction passages generalizing strict offset with
  | nil => exact List.forall_mem_nil _
  | cons passage later ih =>
    cases passage with
    | gap text => exact ih reads
    | statement text kind =>
      refine List.forall_mem_cons.2 ⟨?_, ih reads.2.2⟩
      exact Nat.add_lt_add_right (byteSize_pos reads.1) offset

private theorem length_itemsOf_le_of_faces (reads : g.Reads context strict passages)
    (faces : cursor.Faces passages) : (itemsOf offset passages).length ≤ cursor.text.length := by
  induction passages generalizing offset with
  | nil => exact Nat.zero_le _
  | cons passage later ih =>
    cases passage with
    | gap text => exact ih reads faces
    | statement text kind =>
      rw [(faces_statement.1 faces).2.2.2, ← spell_statement]
      exact length_itemsOf_le reads

end Grammar

/-- The script is accepted and has the statements of the passages, which are not empty, and no other
items. -/
def IsReadAs (typed : Bool) (source : String) (passages : List Passage) : Prop :=
  ∃ outline, parse typed source = .ok outline ∧ outline.items = itemsOf 0 passages ∧
    ∀ item ∈ outline.items, item.span.start < item.span.stop

/-- The spelling of the passages begins with their first statement, and each statement is read by
itself as what it is meant to be. -/
def ReadsApart (typed : Bool) (passages : List Passage) : Prop :=
  (Cursor.first (spell passages)).Faces passages ∧
    (grammar plenty).Reads (.top typed) (isMarkedToRun (spell passages)) passages

/-- A script that is put together from statements has these statements if and only if each of them
is read by itself before what follows it. -/
theorem isReadAs_iff {typed : Bool} {source : String} {passages : List Passage}
    (whole : withoutMark source.toList = spell passages) :
    IsReadAs typed source passages ↔ ReadsApart typed passages := by
  have begins : Resumes (spell passages) 0 (spell passages) := ⟨[], rfl, rfl⟩
  constructor
  · rintro ⟨outline, read, same, filled⟩
    obtain ⟨last, itemized, ends, -, faultless, -⟩ := (parse_eq_ok_iff whole).1 read
    rw [same] at itemized filled
    exact Grammar.faces_and_reads_of_itemized itemized ends faultless filled rfl (sits_first _) begins
  · rintro ⟨faces, reads⟩
    obtain ⟨last, itemized, ends, faultless⟩ :=
      Grammar.itemized_of_reads reads faces (sits_first _) begins
    refine ⟨⟨itemsOf 0 passages, last.identifiers.reverse⟩, ?_, rfl, Grammar.filled_of_reads reads⟩
    exact (parse_eq_ok_iff whole).2
      ⟨last, itemized, ends, Grammar.length_itemsOf_le_of_faces reads faces, faultless, rfl⟩

end TypedSvelte.Script
