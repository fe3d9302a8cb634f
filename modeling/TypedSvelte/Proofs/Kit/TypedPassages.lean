import TypedSvelte.Proofs.Position.LedgerText
import TypedSvelte.Proofs.Script.SettledItems

/-!
# A script with types inserted, item by item

The assembled text can be cut wherever the source can be: each part of the source is filled with the
entries that belong there (`filled_append`). Each text that types something lies in one item, so the
output has the same items as the source with the same gaps between them, each with its own texts
(`toList_eq_spell`).
-/
namespace TypedSvelte.Ledger

/-- The source from byte `cursor` up to byte `stop`, with the entries inserted. -/
def filled (source : String) (cursor stop : Nat) : List Entry → String
  | [] => (Span.mk cursor stop).text source
  | entry :: rest =>
    (Span.mk cursor entry.position).text source ++ entry.text ++
      filled source entry.position stop rest

variable {source : String} {entries before behind : List Entry} {cursor middle stop : Nat}

theorem eq_filled_of_weave {out : String} (woven : weave source cursor entries = some out)
    (cuts : ∀ e ∈ entries, IsCut source e.position) :
    out = filled source cursor source.utf8ByteSize entries := by
  induction entries generalizing cursor out with
  | nil =>
    change slice? source cursor source.utf8ByteSize = some out at woven
    rw [filled, Span.text, woven, Option.getD_some]
  | cons entry rest ih =>
    obtain ⟨here, others⟩ := List.forall_mem_cons.1 cuts
    obtain ⟨copied, slice, woven⟩ := Option.bind_eq_some_iff.1 woven
    obtain ⟨after, later, same⟩ := Option.bind_eq_some_iff.1 woven
    rw [Nat.min_eq_left here.le] at slice later
    cases same
    rw [filled, ← ih later others, Span.text, slice, Option.getD_some]

/-- What is inserted up to a cut, and behind it. -/
theorem filled_append (first : IsCut source cursor) (inner : IsCut source middle)
    (last : IsCut source stop) (toMiddle : cursor ≤ middle) (toStop : middle ≤ stop)
    (increasing : Increasing (before ++ behind))
    (cuts : ∀ e ∈ before ++ behind, IsCut source e.position)
    (left : ∀ e ∈ before, cursor ≤ e.position ∧ e.position ≤ middle)
    (right : ∀ e ∈ behind, middle ≤ e.position) :
    filled source cursor stop (before ++ behind) =
      filled source cursor middle before ++ filled source middle stop behind := by
  induction before generalizing cursor with
  | nil =>
    cases behind with
    | nil => exact (text_append first inner last toMiddle toStop).symm
    | cons entry rest =>
      have here := cuts entry List.mem_cons_self
      have onward := right entry List.mem_cons_self
      rw [List.nil_append, filled, filled, filled, ← text_append first inner here toMiddle onward]
      simp only [String.append_assoc]
  | cons entry rest ih =>
    obtain ⟨here, others⟩ := List.forall_mem_cons.1 cuts
    obtain ⟨later, restIncreasing⟩ := increasing_cons.1 increasing
    obtain ⟨inside, insideOthers⟩ := List.forall_mem_cons.1 left
    have tail := ih here inside.2 restIncreasing others fun e member =>
      ⟨Nat.le_of_lt (later e (List.mem_append_left behind member)), (insideOthers e member).2⟩
    rw [List.cons_append, filled, filled, tail]
    simp only [String.append_assoc]

/-- The entries behind a place are those up to another place and those behind that. -/
theorem Increasing.filter_split (increasing : Increasing entries) {low : Nat} (ordered : low ≤ middle) :
    entries.filter (low < ·.position) =
      entries.filter (fun e => low < e.position && e.position ≤ middle) ++
        entries.filter (middle < ·.position) := by
  induction entries with
  | nil => rfl
  | cons entry rest ih =>
    obtain ⟨later, restIncreasing⟩ := increasing_cons.1 increasing
    replace ih := ih restIncreasing
    by_cases above : low < entry.position
    · by_cases within : entry.position ≤ middle
      · simp [above, within, ih]
      · have none : rest.filter (fun e => low < e.position && e.position ≤ middle) = [] := by
          refine List.filter_eq_nil_iff.2 fun e member => ?_
          have order := later e member
          simp only [Bool.and_eq_true, decide_eq_true_eq, not_and, Nat.not_le]
          omega
        rw [none] at ih
        simp [above, within, Nat.not_le.1 within, none, ih]
    · simp [above, Nat.not_lt.2 (Nat.le_trans (Nat.not_lt.1 above) ordered), ih]

end TypedSvelte.Ledger

namespace TypedSvelte.Kit

open Script

/-- The texts that are inserted into an item. -/
def textsIn (entries : List Ledger.Entry) (item : Item) : List Ledger.Entry :=
  entries.filter fun e => item.span.start < e.position && e.position ≤ item.keptTo

/-- The text of an item, with the texts inserted into it. -/
def typedText (source : String) (entries : List Ledger.Entry) (item : Item) : List Char :=
  (Ledger.filled source item.span.start item.keptTo (textsIn entries item)).toList

/-- What is meant to be in the output for the source from byte `cursor` on: the items, each with the
kind that it is meant to have. -/
def typedPassages (source : String) (entries : List Ledger.Entry) (cursor : Nat) :
    List (Item × ItemKind) → List Passage
  | [] => [.gap ((Span.mk cursor source.utf8ByteSize).text source).toList]
  | (item, kind) :: later =>
    .gap ((Span.mk cursor item.span.start).text source).toList
      :: .statement (typedText source entries item) kind
      :: typedPassages source entries item.keptTo later

/-- The entries that are inserted from byte `cursor` on lie in the items. -/
def LieIn (entries : List Ledger.Entry) (cursor : Nat) (items : List Item) : Prop :=
  ∀ e ∈ entries, cursor < e.position → ∃ item ∈ items, e ∈ textsIn entries item

variable {source : String} {entries : List Ledger.Entry} {cursor : Nat} {item : Item}
  {items later : List Item} {e : Ledger.Entry}

theorem mem_textsIn : e ∈ textsIn entries item ↔
    e ∈ entries ∧ item.span.start < e.position ∧ e.position ≤ item.keptTo := by
  simp [textsIn]

theorem isCut_end (source : String) : IsCut source source.utf8ByteSize :=
  isCut_iff.2 ⟨source, "", String.append_empty.symm, rfl⟩

private theorem LieIn.tail (inOrder : InOrder source (item :: later))
    (lieIn : LieIn entries cursor (item :: later)) (onward : cursor ≤ item.keptTo) :
    LieIn entries item.keptTo later := by
  intro e member behind
  obtain ⟨found, inItems, inItem⟩ := lieIn e member (Nat.lt_of_le_of_lt onward behind)
  rcases List.mem_cons.1 inItems with rfl | inLater
  · exact absurd (mem_textsIn.1 inItem).2.2 (Nat.not_le.2 behind)
  · exact ⟨found, inLater, inItem⟩

/-- The entries between a place in front of an item and its end are those in the item. -/
private theorem textsIn_eq (inOrder : InOrder source (item :: later))
    (lieIn : LieIn entries cursor (item :: later)) (before : cursor ≤ item.span.start) :
    entries.filter (fun e => cursor < e.position && e.position ≤ item.keptTo) =
      textsIn entries item := by
  refine List.filter_congr fun e member => ?_
  rw [Bool.eq_iff_iff, Bool.and_eq_true_iff, Bool.and_eq_true_iff]
  simp only [decide_eq_true_eq]
  refine ⟨fun ⟨behind, within⟩ => ⟨?_, within⟩, fun ⟨behind, within⟩ => ⟨by omega, within⟩⟩
  obtain ⟨found, inItems, inItem⟩ := lieIn e member behind
  obtain ⟨-, above, -⟩ := mem_textsIn.1 inItem
  rcases List.mem_cons.1 inItems with rfl | inLater
  · exact above
  · have apart := (List.pairwise_cons.1 inOrder.ordered).1 found inLater
    omega

/-- The passages spell the rest of the output. -/
theorem spell_typedPassages (increasing : Ledger.Increasing entries)
    (cuts : ∀ e ∈ entries, IsCut source e.position) {typings : List (Item × ItemKind)}
    (inOrder : InOrder source (typings.map (·.1))) (lieIn : LieIn entries cursor (typings.map (·.1)))
    (here : IsCut source cursor) (before : ∀ item ∈ typings.map (·.1), cursor ≤ item.span.start) :
    spell (typedPassages source entries cursor typings) =
      (Ledger.filled source cursor source.utf8ByteSize
        (entries.filter (cursor < ·.position))).toList := by
  induction typings generalizing cursor with
  | nil =>
    have none : entries.filter (cursor < ·.position) = [] := by
      refine List.filter_eq_nil_iff.2 fun e member behind => ?_
      obtain ⟨_, inItems, _⟩ := lieIn e member (of_decide_eq_true behind)
      cases inItems
    rw [none]
    exact List.append_nil _
  | cons typing later ih =>
    obtain ⟨item, kind⟩ := typing
    have start := inOrder.startCut item List.mem_cons_self
    have stop := inOrder.endCut item List.mem_cons_self
    have ahead : cursor ≤ item.span.start := before item List.mem_cons_self
    have forward : item.span.start ≤ item.keptTo :=
      Nat.le_trans (inOrder.forward item List.mem_cons_self) (Nat.le_max_left _ _)
    have onward := Nat.le_trans ahead forward
    have split := increasing.filter_split onward
    rw [textsIn_eq inOrder lieIn ahead] at split
    have sorted : Ledger.Increasing
        (textsIn entries item ++ entries.filter (item.keptTo < ·.position)) :=
      split ▸ increasing.filter _
    have cut : ∀ e ∈ textsIn entries item ++ entries.filter (item.keptTo < ·.position),
        IsCut source e.position := fun e member =>
      cuts e ((List.mem_append.1 member).elim List.mem_of_mem_filter List.mem_of_mem_filter)
    have inItem (e : Ledger.Entry) (member : e ∈ textsIn entries item) :=
      (mem_textsIn.1 member).2
    have parts := Ledger.filled_append here stop (isCut_end source) onward stop.le sorted cut
      (fun e member => ⟨Nat.le_trans ahead (Nat.le_of_lt (inItem e member).1), (inItem e member).2⟩)
      (fun e member => Nat.le_of_lt (of_decide_eq_true (List.mem_filter.1 member).2))
    have opening := @Ledger.filled_append source [] (textsIn entries item) cursor item.span.start
      item.keptTo here start stop ahead forward (increasing.filter _)
      (fun e member => cuts e (List.mem_of_mem_filter member)) (List.forall_mem_nil _)
      (fun e member => Nat.le_of_lt (inItem e member).1)
    have tail := ih inOrder.tail (lieIn.tail inOrder onward) stop
      (List.pairwise_cons.1 inOrder.ordered).1
    rw [split, parts, ← List.nil_append (textsIn entries item), opening, typedPassages, spell_cons,
      spell_cons, tail]
    simp [Passage.chars, typedText, Ledger.filled]

/-- The output is the passages from the beginning on. -/
theorem toList_eq_spell {out : String} (woven : Ledger.weave source 0 entries = some out)
    (increasing : Ledger.Increasing entries) (cuts : ∀ e ∈ entries, IsCut source e.position)
    {typings : List (Item × ItemKind)} (inOrder : InOrder source (typings.map (·.1)))
    (lieIn : ∀ e ∈ entries, ∃ item ∈ typings.map (·.1), e ∈ textsIn entries item) :
    out.toList = spell (typedPassages source entries 0 typings) := by
  have all : entries.filter (0 < ·.position) = entries := by
    refine List.filter_eq_self.2 fun e member => decide_eq_true ?_
    obtain ⟨_, _, inItem⟩ := lieIn e member
    exact Nat.zero_lt_of_lt (mem_textsIn.1 inItem).2.1
  have start : IsCut source 0 := isCut_iff.2 ⟨"", source, String.empty_append.symm, rfl⟩
  rw [spell_typedPassages increasing cuts inOrder (fun e member _ => lieIn e member) start
    (fun _ _ => Nat.zero_le _), all, Ledger.eq_filled_of_weave woven cuts]

end TypedSvelte.Kit
