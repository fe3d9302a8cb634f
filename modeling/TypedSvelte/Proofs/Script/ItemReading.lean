import TypedSvelte.Proofs.Script.CursorPlaces

/-!
# Items read one behind another

The items of a script are read one behind another, each in a text of its own that begins with it
(`Grammar.Itemized`). A script is accepted exactly if this comes to its end without a fault
(`parse_eq_ok_iff`).
-/
namespace TypedSvelte.Script

namespace Grammar

/-- From a cursor on, these are the items up to another one. The first one may be strict, the others
are. -/
inductive Itemized (g : Grammar) (context : Context) : Bool → Cursor → List Item → Cursor → Prop
  | done {strict : Bool} {cursor : Cursor} : Itemized g context strict cursor [] cursor
  | item {strict : Bool} {cursor next last : Cursor} {item : Item} {later : List Item}
      (begins : cursor.token.isEnd = false) (valid : ∀ fault, cursor.token.kind ≠ .invalid fault)
      (read : (moduleItem g).run context (.standing strict cursor.text) = .ok item next)
      (others : Itemized g context true (next.rejoin cursor) later last) :
      Itemized g context strict cursor (item.shift cursor.token.start :: later) last

variable {g : Grammar} {context : Context} {strict : Bool} {cursor last : Cursor} {found : List Item}

theorem itemized_of_readItems {limit : Nat}
    (read : readItems g context limit strict cursor = .ok found last) :
    Itemized g context strict cursor found last ∧ last.token.isEnd = true ∧ found.length < limit := by
  induction limit generalizing strict cursor found with
  | zero => cases read
  | succ limit ih =>
    unfold readItems at read
    split at read
    · rename_i ends
      cases read
      exact ⟨.done, ends, Nat.succ_pos _⟩
    rename_i notEnd
    split at read
    · cases read
    rename_i valid
    dsimp only at read
    split at read
    · cases read
    rename_i item next inner
    split at read
    · cases read
    rename_i later behind others
    cases read
    obtain ⟨itemized, ends, few⟩ := ih others
    exact ⟨.item (Bool.eq_false_iff.2 notEnd) valid inner itemized, ends, Nat.succ_lt_succ few⟩

/-- Nothing but their number limits the items that are read. -/
theorem readItems_of_itemized {limit : Nat} (itemized : Itemized g context strict cursor found last)
    (ends : last.token.isEnd = true) (enough : found.length < limit) :
    readItems g context limit strict cursor = .ok found last := by
  induction itemized generalizing limit with
  | done =>
    cases limit with
    | zero => exact absurd enough (Nat.not_lt_zero _)
    | succ limit => rw [readItems, if_pos ends]
  | item begins valid read others ih =>
    cases limit with
    | zero => exact absurd enough (Nat.not_lt_zero _)
    | succ limit =>
      rw [readItems, if_neg (Bool.eq_false_iff.1 begins)]
      split
      · rename_i fault invalid
        exact absurd invalid (valid fault)
      · dsimp only
        rw [read]
        dsimp only
        rw [ih ends (Nat.lt_of_succ_lt_succ enough)]

end Grammar

variable {typed : Bool} {source : String} {outline : Outline}

/-- A script is accepted exactly if its items can be read up to its end without a fault. -/
theorem parse_eq_ok_iff {text : List Char} (whole : withoutMark source.toList = text) :
    parse typed source = .ok outline ↔ ∃ last,
      Grammar.Itemized (grammar plenty) (.top typed) (isMarkedToRun text) (.first text) outline.items
        last ∧
      last.token.isEnd = true ∧ outline.items.length ≤ (Cursor.first text).text.length ∧
      last.faults = [] ∧ outline.identifiers = last.identifiers.reverse := by
  unfold parse readText
  dsimp only
  rw [whole]
  constructor
  · intro read
    split at read
    · cases read
    rename_i reading found
    split at found
    · rename_i items last ran
      cases found
      split at read
      · rename_i accepted
        cases read
        obtain ⟨itemized, ends, few⟩ := Grammar.itemized_of_readItems ran
        exact ⟨last, itemized, ends, Nat.le_of_lt_succ few, List.reverse_eq_nil_iff.1 accepted, rfl⟩
      · cases read
    · cases found
  · rintro ⟨last, itemized, ends, few, accepted, identifiers⟩
    rw [Grammar.readItems_of_itemized itemized ends (Nat.lt_succ_of_le few)]
    dsimp only
    rw [accepted, ← identifiers]
    rfl

end TypedSvelte.Script
