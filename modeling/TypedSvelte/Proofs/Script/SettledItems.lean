import TypedSvelte.Proofs.Script.Gaps
import TypedSvelte.Proofs.Script.Passages

/-!
# Items that are settled

A reader that looks at nothing behind a byte of the text reads the same before any other text behind
that byte. So a statement of a script is read as itself wherever what the reader looked at stands in
front of a token that begins the next statement (`readsAs_of_settled`). That one does if no gap takes
it in (`faces_of_spaced`), and then statements that are read as themselves make up the script
(`readsApart_of_spaced`). A statement may be known from a source that goes on as the script does up to
a place (`Item.SettledBy.readsAs`), or by its own text (`StandsAlone.readsAs`).
-/
namespace TypedSvelte.Script

/-- The first token of a text is next for the cursor, if perhaps by its first character alone. -/
structure Cursor.Arrives (cursor : Cursor) (l : Lexed) : Prop where
  text : cursor.text = l.text
  faults : cursor.token.faults = l.token.faults
  token : cursor.token = l.token ∨ l.text ≠ [] ∧ ∃ p, cursor.token.kind = .punct p

namespace Cursor

variable {strict : Bool} {text : List Char} {cursor : Cursor}

/-- A cursor that has been moved from the beginning of a text has the first token behind the one read
last as its next one. -/
theorem Leads.arrives (leads : (standing strict text).Leads cursor) : cursor.previous = 0 ∨
    ∃ rest, Resumes text cursor.previous rest ∧ cursor.Arrives (lex true cursor.previous rest) := by
  induction leads with
  | refl => exact .inl rfl
  | skip leads n ih =>
    exact .inr ⟨_, (leads.sits (sits_standing strict text)).1.rest.drop n, rfl, rfl, .inl rfl⟩
  | pass leads n ih =>
    exact .inr ⟨_, (leads.sits (sits_standing strict text)).1.token.drop n, rfl, rfl, .inl rfl⟩
  | narrow leads ih =>
    unfold Cursor.narrow
    split
    · exact ih
    rename_i c others ahead
    refine ih.imp id ?_
    rintro ⟨rest, resumes, here⟩
    exact ⟨rest, resumes, here.text, here.faults,
      .inr ⟨fun ends => List.cons_ne_nil c others (ahead.symm.trans (here.text.trans ends)), _, rfl⟩⟩
  | note _ _ ih | noteToken _ _ ih | identify _ ih =>
    refine ih.imp id ?_
    rintro ⟨rest, resumes, here⟩
    exact ⟨rest, resumes, here.text, here.faults, here.token⟩

end Cursor

/-- What is valid as strict text is the same as other text. -/
private theorem piece_unstrict {offset : Nat} {text : List Char}
    (valid : ∀ fault, (piece true offset text).kind ≠ .invalid fault) :
    (piece false offset text).kind = (piece true offset text).kind ∧
      (piece false offset text).length = (piece true offset text).length := by
  have number : (decimalReach false text).1 = (decimalReach true text).1 := by
    unfold decimalReach
    dsimp only
    split
    · rfl
    · rfl
  unfold piece at valid ⊢
  split
  · exact ⟨rfl, rfl⟩
  split
  · rename_i isWord
    dsimp only at valid
    rw [if_pos isWord] at valid
    unfold wordPiece at valid ⊢
    split
    · rename_i chars length name
      rw [name] at valid
      dsimp only at valid ⊢
      split at valid
      · exact absurd rfl (valid _)
      rename_i spelled
      rw [if_neg spelled, if_neg]
      · exact ⟨rfl, rfl⟩
      · rw [isReserved, Bool.false_and, Bool.or_false]
        intro reserved
        refine spelled ?_
        simp only [Bool.and_eq_true] at reserved ⊢
        rw [isReserved, reserved.1.2]
        exact ⟨⟨reserved.1.1, rfl⟩, reserved.2⟩
    · exact ⟨rfl, rfl⟩
  split
  · unfold numberPiece
    split
    · unfold numberUpTo
      rw [number]
      split
      · split
        · exact ⟨rfl, rfl⟩
        · exact ⟨rfl, rfl⟩
      · exact ⟨rfl, rfl⟩
    · exact ⟨rfl, rfl⟩
  split
  · unfold stringPiece
    dsimp only
    split
    · exact ⟨rfl, rfl⟩
    · exact ⟨rfl, rfl⟩
  · exact ⟨rfl, rfl⟩

/-- A text that begins with a valid strict token is read in the same way if it need not be strict. -/
private theorem standing_unstrict {text : List Char}
    (valid : ∀ fault, (Cursor.standing true text).token.kind ≠ .invalid fault) :
    Cursor.standing false text = .standing true text := by
  obtain ⟨kind, length⟩ := piece_unstrict valid
  unfold Cursor.standing
  dsimp only
  rw [kind, length]

/-- Cursors at the beginning of texts that agree are alike if the first token is settled. -/
theorem alike_standing {strict : Bool} {shared x y : List Char}
    (settled : (Cursor.standing strict (shared ++ x)).isSettled (byteSize shared) = true) :
    Cursor.Alike (byteSize shared) x y (.standing strict (shared ++ x))
      (.standing strict (shared ++ y)) := by
  have ends : (piece strict 0 (shared ++ x)).EndsIn shared := by
    unfold Cursor.isSettled Cursor.standing at settled
    dsimp only at settled
    rw [← Nat.zero_add (byteSize (List.take _ _))] at settled
    exact Token.isSettled.endsIn (Nat.zero_add _) settled
  have filled := ends.ne_nil
  have same : piece strict 0 (shared ++ y) = piece strict 0 (shared ++ x) := piece_append ends
  unfold Cursor.standing
  dsimp only
  rw [same, List.take_append_of_le_length ends.length_le, List.take_append_of_le_length ends.length_le,
    List.drop_append_of_le_length ends.length_le, List.drop_append_of_le_length ends.length_le]
  generalize piece strict 0 (shared ++ x) = p at ends
  exact .inside ⟨⟨p.kind, 0, byteSize (shared.take p.length), false, []⟩, [], [], 0, [], none, []⟩
    shared (shared.drop p.length) filled (Nat.zero_add _) (byteSize_take_add_drop ..)

/-- Without a fault, the first token of a text begins the first statement of the passages, or is the
end of the text. -/
def Lexed.Faces (passages : List Passage) (l : Lexed) : Prop :=
  l.token.faults = [] ∧ l.token.Begins passages l.text

/-- Where no token begins, the text ends. -/
private theorem text_of_isEnd {strict : Bool} {offset : Nat} {text : List Char}
    (isEnd : (lex strict offset text).token.isEnd = true) : (lex strict offset text).text = [] := by
  have kind := eq_of_beq isEnd
  unfold lex at kind ⊢
  dsimp only at kind ⊢
  split at kind
  · cases kind
  · exact eq_nil_of_piece kind

/-- The text begins with a token, even behind a line break. -/
structure Begins (text : List Char) : Prop where
  filled : text ≠ []
  atOnce : (passGap true .blank 0 true [] text).text = text
  valid : ∀ strict fault, (piece strict 0 text).kind ≠ .invalid fault
  faultless : ∀ strict, (piece strict 0 text).fault = none

/-- No gap takes in what comes behind it: all gaps close, and the statements begin with tokens. -/
def Spaced : List Passage → Prop
  | [] => True
  | .gap text :: later => closes .blank text = true ∧ Spaced later
  | .statement text _ :: later => Begins (text ++ spell later) ∧ Spaced later

/-- Where a token begins there is no gap to pass. -/
private theorem passGap_begins {text : List Char} (begins : Begins text) (strict : Bool)
    (offset : Nat) (afterBreak : Bool) (faults : List Nat) :
    passGap strict .blank offset afterBreak faults text = ⟨offset, afterBreak, faults, none, text⟩ := by
  obtain ⟨filled, atOnce, -, -⟩ := begins
  obtain ⟨c, cs, rfl⟩ := List.exists_cons_of_ne_nil filled
  have onward (gap : Gap) (next : Nat) (broken : Bool) (noted : List Nat) :
      (passGap true gap next broken noted cs).text ≠ c :: cs := by
    intro same
    obtain ⟨passed, parts, -⟩ := passes_passGap true gap next broken noted cs
    have longer := congrArg List.length parts
    rw [same, List.length_append, List.length_cons] at longer
    omega
  rw [passGap.eq_def] at atOnce ⊢
  dsimp only at atOnce ⊢
  split at atOnce
  · exact absurd atOnce (onward _ _ _ _)
  rename_i noBreak
  rw [if_neg noBreak]
  split at atOnce
  · exact absurd atOnce (onward _ _ _ _)
  rename_i noGap
  rw [if_neg noGap]
  split at atOnce
  · exact absurd atOnce (onward _ _ _ _)
  rename_i noLine
  rw [if_neg noLine]
  split at atOnce
  · exact absurd atOnce (onward _ _ _ _)
  rename_i noBlock
  rw [if_neg noBlock]
  split at atOnce
  · exact absurd atOnce (onward _ _ _ _)
  rename_i noMarkup
  rw [if_neg]
  simp only [Bool.or_eq_true, Bool.and_eq_true, Bool.true_or, and_true] at noMarkup ⊢
  exact fun opens => noMarkup (opens.imp_right fun dash => ⟨dash.1.1, dash.2⟩)

/-- The gaps in front of the first statement are passed. -/
private theorem passGap_spaced {passages : List Passage} (spaced : Spaced passages) (strict : Bool)
    (offset : Nat) (afterBreak : Bool) :
    let ahead := passages.dropWhile (·.isGap)
    (ahead ≠ [] → Begins (spell ahead)) ∧ ∃ reached broken,
      passGap strict .blank offset afterBreak [] (spell passages) =
        ⟨reached, broken, [], none, spell ahead⟩ := by
  induction passages generalizing offset afterBreak with
  | nil => exact ⟨fun present => absurd rfl present, offset, afterBreak, rfl⟩
  | cons passage later ih =>
    cases passage with
    | gap text =>
      obtain ⟨broken, passed⟩ := passGap_closes .blank spaced.1 strict offset afterBreak [] (spell later)
      rw [spell_cons]
      exact passed ▸ ih spaced.2 ..
    | statement text kind =>
      have begins : Begins (spell (.statement text kind :: later)) := by
        rw [spell_cons]
        exact spaced.1
      exact ⟨fun _ => begins, offset, afterBreak, passGap_begins begins ..⟩

/-- Behind the gaps comes the first statement, or the text ends. -/
theorem faces_of_spaced {passages : List Passage} (spaced : Spaced passages) (strict : Bool)
    (offset : Nat) : (lex strict offset (spell passages)).Faces passages := by
  obtain ⟨begins, reached, broken, passed⟩ := passGap_spaced spaced strict offset false
  unfold lex Lexed.Faces Token.Begins
  rw [passed]
  dsimp only
  split
  · rename_i nothing
    rw [nothing]
    exact ⟨rfl, rfl⟩
  · rename_i more
    have begins := begins more
    have same := piece_move reached (begins.valid strict)
    rw [same, begins.faultless strict]
    refine ⟨rfl, ?_, begins.valid strict, rfl⟩
    exact beq_eq_false_iff_ne.2 fun ends => begins.filled (eq_nil_of_piece ends)

/-- No text that is spaced begins with a line that marks it to be run. -/
private theorem isMarkedToRun_spaced {passages : List Passage} (spaced : Spaced passages) :
    isMarkedToRun (spell passages) = false := by
  rw [← Bool.not_eq_true]
  intro marked
  obtain ⟨more, whole⟩ := List.isPrefixOf_iff_prefix.1 marked
  obtain ⟨begins, reached, broken, passed⟩ := passGap_spaced spaced true 0 false
  rw [← whole] at passed
  have here : '#' :: '!' :: more = spell (passages.dropWhile (·.isGap)) := congrArg GapEnd.text passed
  have present : passages.dropWhile (·.isGap) ≠ [] := by
    intro nothing
    rw [nothing] at here
    cases here
  have valid := (begins present).valid true
  rw [← here] at valid
  exact valid 0 rfl

namespace Cursor

theorem Arrives.begins {cursor : Cursor} {strict : Bool} {offset : Nat} {text : List Char}
    {passages : List Passage} (arrives : cursor.Arrives (lex strict offset text))
    (begins : (lex strict offset text).token.Begins passages (lex strict offset text).text) :
    cursor.token.Begins passages cursor.text := by
  rw [arrives.text]
  obtain same | ⟨goesOn, p, isPunct⟩ := arrives.token
  · exact same ▸ begins
  unfold Token.Begins at begins ⊢
  split at begins
  · exact absurd (text_of_isEnd begins) goesOn
  · refine ⟨?_, ?_, begins.2.2⟩
    · rw [Token.isEnd, isPunct]
      rfl
    · intro fault invalid
      cases isPunct.symm.trans invalid

/-- Two cursors that are alike have the same faults, but for those of their next tokens. -/
theorem Alike.faults {limit : Nat} {first second : List Char} {a b : Cursor}
    (alike : a.Alike limit first second b) (faultless : a.faults = []) (next : b.token.faults = []) :
    b.faults = [] := by
  cases alike with
  | inside => exact faultless
  | reaching cursor noted text toLimit =>
    have before : cursor.faults = [] := (List.append_eq_nil_iff.1 faultless).2
    unfold reach at next ⊢
    dsimp only at next ⊢
    rw [next, before]
    cases noted <;> rfl

end Cursor

namespace Grammar

private theorem Itemized.faultless {g : Grammar} {context : Context} {strict : Bool}
    {cursor last : Cursor} {found : List Item} (itemized : g.Itemized context strict cursor found last)
    (faultless : last.faults = []) : cursor.faults = [] := by
  induction itemized with
  | done => exact faultless
  | item _ _ _ _ ih => exact (List.append_eq_nil_iff.1 (ih faultless)).2

/-- Every item has been read by itself from the place where it begins. -/
theorem Itemized.reading {g : Grammar} {context : Context} {strict : Bool} {cursor last : Cursor}
    {text : List Char} {found earlier later : List Item} {item : Item}
    (itemized : g.Itemized context strict cursor found last) (faultless : last.faults = [])
    (here : cursor.Sits text) (parts : found = earlier ++ item :: later) :
    ∃ rest own next, Resumes text item.span.start rest ∧
      (moduleItem g).run context (.standing (strict || !earlier.isEmpty) rest) = .ok own next ∧
      item = own.shift item.span.start ∧ own.span.start = 0 ∧ next.faults = [] := by
  induction itemized generalizing earlier with
  | done => exact absurd parts (by simp)
  | @item strict cursor next last own others begins valid read itemized ih =>
    have alone := Cursor.sits_standing strict cursor.text
    cases earlier with
    | nil =>
      cases parts
      have start : own.span.start = 0 := congrArg Span.start (keptFrom_of_moduleItem alone read).1
      have place : (own.shift cursor.token.start).span.start = cursor.token.start := by
        change own.span.start + cursor.token.start = _
        rw [start, Nat.zero_add]
      have faults := List.append_eq_nil_iff.1 (itemized.faultless faultless)
      rw [place, List.isEmpty_nil, Bool.not_true, Bool.or_false]
      exact ⟨cursor.text, own, next, here.token, read, rfl, start, List.map_eq_nil_iff.1 faults.1⟩
    | cons _ earlier =>
      cases parts
      obtain ⟨rest, own, next, resumes, read, same⟩ :=
        ih faultless (here.rejoin ((Reader.leads_of_run read).sits alone).1) rfl
      rw [Bool.true_or] at read
      refine ⟨rest, own, next, resumes, ?_, same⟩
      rw [List.isEmpty_cons, Bool.not_false, Bool.or_true]
      exact read

/-- A statement that the reader knows by what stands before byte `byteSize shared` is read as itself
before other text too, if that begins with the passages to come. -/
theorem readsAs_of_settled {g : Grammar} {context : Context} {strict : Bool}
    {text shared first second : List Char} {kind : ItemKind} {next : Cursor} {later : List Passage}
    (read : (moduleItem g).run context (.standing strict (shared ++ first)) = .ok (itemOf text kind) next)
    (faultless : next.faults = [])
    (settled : (moduleItem g).settled context (.standing strict (shared ++ first)) (byteSize shared) =
      true)
    (filled : text ≠ []) (whole : text ++ spell later = shared ++ second)
    (spaced : Spaced (.statement text kind :: later)) (other : Bool) :
    g.ReadsAs context other text kind later := by
  have begun : (Cursor.standing strict (shared ++ first)).isSettled (byteSize shared) = true :=
    (Bool.and_eq_true_iff.1 (Bool.and_eq_true_iff.1 settled).1).1
  have same := (moduleItem g).agrees (alike_standing (y := second) begun) settled
  have faces := faces_of_spaced spaced.2 true (byteSize text)
  have standing : Cursor.standing other (text ++ spell later) = .standing strict (shared ++ second) := by
    have strictly (s : Bool) : Cursor.standing s (text ++ spell later) =
        .standing true (text ++ spell later) := by
      cases s with
      | false => exact standing_unstrict (spaced.1.valid true)
      | true => rfl
    rw [← whole, strictly other, strictly strict]
  rw [read] at same
  generalize reread : (moduleItem g).run context (.standing strict (shared ++ second)) = result at same
  cases same with
  | @ok _ _ last alike =>
    have previous : last.previous = byteSize text := by
      have span := (keptFrom_of_moduleItem (Cursor.sits_standing ..) reread).1
      exact (congrArg Span.stop span).symm
    obtain atStart | ⟨rest, resumes, arrives⟩ := (Reader.leads_of_run reread).arrives
    · exact absurd (previous.symm.trans atStart) (Nat.ne_of_gt (byteSize_pos filled))
    rw [previous] at resumes arrives
    obtain rfl := resumes.unique ⟨text, whole.symm, rfl⟩
    refine ⟨last, standing.symm ▸ reread, ?_⟩
    exact ⟨alike.faults faultless (arrives.faults.trans faces.1), arrives.begins faces.2⟩

end Grammar

/-- The item has been read, in the source, without a look behind this place. -/
structure Item.SettledBy (item : Item) (typed : Bool) (source : String) (earlier : List Item)
    (place : Nat) : Prop where
  filled : item.span.start < item.span.stop
  settled : ∀ rest, Resumes source.toList item.span.start rest →
    (Grammar.moduleItem (grammar plenty)).settled (.top typed)
      (.standing (isMarkedToRun source.toList || !earlier.isEmpty) rest) (place - item.span.start) = true

/-- Such an item is read as itself before any statement if the text goes on up to the place as the
source does. -/
theorem Item.SettledBy.readsAs {typed : Bool} {source : String} {outline : Outline}
    {earlier others : List Item} {item : Item} {place : Nat} {later : List Passage} {more : List Char}
    (settledBy : item.SettledBy typed source earlier place)
    (read : Script.parse typed source = .ok outline) (unmarked : source.toList.head? ≠ some '\uFEFF')
    (parts : outline.items = earlier ++ item :: others) (ends : IsCut source item.span.stop)
    (cut : IsCut source place) (behind : item.span.stop ≤ place)
    (goesOn : spell later = ((Span.mk item.span.stop place).text source).toList ++ more)
    (spaced : Spaced
      (.statement (item.span.text source).toList (item.kind.move (· - item.span.start)) :: later))
    (strict : Bool) : (item.span.text source).toList ≠ [] ∧ (grammar plenty).ReadsAs (.top typed) strict
      (item.span.text source).toList (item.kind.move (· - item.span.start)) later := by
  obtain ⟨filled, settled⟩ := settledBy
  have inOrder := (parts ▸ inOrder_of_parse unmarked read).right
  obtain ⟨last, itemized, -, -, faultless, -⟩ :=
    (parse_eq_ok_iff (withoutMark_of_unmarked unmarked)).1 read
  obtain ⟨rest, own, next, resumes, ran, same, start, unfaulted⟩ :=
    itemized.reading faultless (sits_first _) parts
  replace settled := settled rest resumes
  have here := inOrder.startCut item List.mem_cons_self
  have forward := Nat.le_of_lt filled
  obtain ⟨-, size⟩ := resumes_text here ends forward
  obtain ⟨⟨first, shared⟩, sharedSize⟩ := resumes_text here cut (Nat.le_trans forward behind)
  cases resumes.unique shared
  have text : (item.span.text source).toList ≠ [] := by
    intro empty
    rw [empty] at size
    exact absurd size (Nat.ne_of_lt (Nat.sub_pos_of_lt filled))
  have whole : (item.span.text source).toList ++ spell later =
      ((Span.mk item.span.start place).text source).toList ++ more := by
    rw [goesOn, ← List.append_assoc, ← String.toList_append, text_append here ends cut forward behind]
  have reads : own = itemOf (item.span.text source).toList (item.kind.move (· - item.span.start)) := by
    have undone : Function.LeftInverse (· - item.span.start) (· + item.span.start) :=
      (Nat.add_sub_cancel · item.span.start)
    have back : item.kind.move (· - item.span.start) = own.kind :=
      (congrArg (·.kind.move (· - item.span.start)) same).trans
        (congrArg Item.kind (own.move_back undone))
    have stop : item.span.stop = own.span.stop + item.span.start := congrArg (·.span.stop) same
    have length : own.span.stop = byteSize (item.span.text source).toList := by
      rw [size, stop, Nat.add_sub_cancel]
    rw [back]
    obtain ⟨⟨_, _⟩, kind⟩ := own
    cases start
    cases length
    rfl
  rw [reads] at ran
  rw [← sharedSize] at settled
  exact ⟨text, Grammar.readsAs_of_settled ran unfaulted settled text whole spaced strict⟩

/-- The text is a statement of this kind in a script of its own, and the reader does not look behind
it. -/
structure StandsAlone (typed : Bool) (text : List Char) (kind : ItemKind) : Prop where
  filled : text ≠ []
  reads : ∃ next, (Grammar.moduleItem (grammar plenty)).run (.top typed) (.standing true text) =
    .ok (itemOf text kind) next ∧ next.faults = []
  settled : (Grammar.moduleItem (grammar plenty)).settled (.top typed) (.standing true text)
    (byteSize text) = true

/-- What stands alone is read as itself before any statement. -/
theorem StandsAlone.readsAs {typed : Bool} {text : List Char} {kind : ItemKind}
    (alone : StandsAlone typed text kind) {later : List Passage}
    (spaced : Spaced (.statement text kind :: later)) (strict : Bool) :
    (grammar plenty).ReadsAs (.top typed) strict text kind later := by
  obtain ⟨filled, ⟨next, read, faultless⟩, settled⟩ := alone
  have same : Cursor.standing true (text ++ []) = .standing true text := by rw [List.append_nil]
  exact Grammar.readsAs_of_settled (same ▸ read) faultless (same ▸ settled) filled rfl spaced strict

/-- If no gap takes in what comes behind it, a script begins with the first of its statements, and
it is enough that each is read by itself. -/
theorem readsApart_of_spaced {typed : Bool} {passages : List Passage} (spaced : Spaced passages)
    (reads : (grammar plenty).Reads (.top typed) false passages) : ReadsApart typed passages := by
  have unmarked := isMarkedToRun_spaced spaced
  obtain ⟨faultless, begins⟩ := faces_of_spaced spaced false 0
  have first : Cursor.first (spell passages) = .start false 0 (spell passages) :=
    if_neg (Bool.eq_false_iff.1 unmarked)
  refine ⟨?_, unmarked ▸ reads⟩
  rw [first]
  exact ⟨List.reverse_eq_nil_iff.2 faultless, begins⟩

end TypedSvelte.Script
