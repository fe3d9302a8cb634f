import TypedSvelte.Proofs.Kit.TypedPassages

/-!
# Items that are read by themselves in a typed file

Up to the next text the output goes on as the source does (`spell_behind`). So an item without texts
is read in the output as it was if the reader looked at nothing behind the next text
(`readsAs_of_isSettled`). If each item is known by what stands before the next text, or by its own
text, the output is read as these items (`readsApart_of_readsItself`).
-/
namespace TypedSvelte.Kit

open Script

/-- The place of the next text behind a place, or the end of the source. -/
def nextText (source : String) (entries : List Ledger.Entry) (cursor : Nat) : Nat :=
  ((entries.filter (cursor < ·.position)).head?.map (·.position)).getD source.utf8ByteSize

variable {source : String} {entries : List Ledger.Entry} {outline : Outline}
  {earlier later : List Item} {item : Item} {typings : List (Item × ItemKind)}

/-- Up to the next text the output goes on as the source does. -/
private theorem filled_same {cursor : Nat} (here : IsCut source cursor)
    (cuts : ∀ e ∈ entries, IsCut source e.position) :
    IsCut source (nextText source entries cursor) ∧ cursor ≤ nextText source entries cursor ∧
      ∃ more, Ledger.filled source cursor source.utf8ByteSize (entries.filter (cursor < ·.position)) =
        (Span.mk cursor (nextText source entries cursor)).text source ++ more := by
  have members (e : Ledger.Entry) (member : e ∈ entries.filter (cursor < ·.position)) :
      e ∈ entries ∧ cursor < e.position :=
    (List.mem_filter.1 member).imp_right of_decide_eq_true
  unfold nextText
  generalize entries.filter (cursor < ·.position) = behind at members
  cases behind with
  | nil => exact ⟨isCut_end source, here.le, "", String.append_empty.symm⟩
  | cons e others =>
    obtain ⟨member, above⟩ := members e List.mem_cons_self
    exact ⟨cuts e member, Nat.le_of_lt above,
      e.text ++ Ledger.filled source e.position source.utf8ByteSize others, String.append_assoc ..⟩

/-- The entries of an output can be inserted, each into an item. -/
structure Fit (source : String) (entries : List Ledger.Entry) (items : List Item) : Prop where
  increasing : Ledger.Increasing entries
  cuts : ∀ e ∈ entries, IsCut source e.position
  lieIn : ∀ e ∈ entries, ∃ item ∈ items, e ∈ textsIn entries item

/-- Where the output has read on behind an item, it goes on up to the next text as the source does. -/
private theorem spell_behind (fit : Fit source entries (earlier ++ item :: later))
    (inOrder : InOrder source (earlier ++ item :: later)) (isLater : typings.map (·.1) = later) :
    IsCut source (nextText source entries item.keptTo) ∧
      item.keptTo ≤ nextText source entries item.keptTo ∧
      ∃ more : String, spell (typedPassages source entries item.keptTo typings) =
        ((Span.mk item.keptTo (nextText source entries item.keptTo)).text source).toList ++
          more.toList := by
  have ahead := inOrder.right
  have ends := ahead.endCut item List.mem_cons_self
  obtain ⟨cut, onward, more, goesOn⟩ := filled_same ends fit.cuts
  have laterTexts : LieIn entries item.keptTo (typings.map (·.1)) := by
    intro e member above
    obtain ⟨found, inItems, inItem⟩ := fit.lieIn e member
    obtain ⟨-, -, within⟩ := mem_textsIn.1 inItem
    rcases List.mem_append.1 inItems with inEarlier | inRest
    · have apart := (List.pairwise_append.1 inOrder.ordered).2.2 found inEarlier item
        List.mem_cons_self
      have forward := ahead.forward item List.mem_cons_self
      have kept : item.keptFrom ≤ item.keptTo := Nat.le_max_left ..
      omega
    · rcases List.mem_cons.1 inRest with rfl | inLater
      · omega
      · exact ⟨found, isLater ▸ inLater, inItem⟩
  refine ⟨cut, onward, more, ?_⟩
  rw [spell_typedPassages fit.increasing fit.cuts (isLater ▸ ahead.tail) laterTexts ends
    (isLater ▸ (List.pairwise_cons.1 ahead.ordered).1), goesOn, String.toList_append]

/-- Nothing is inserted into the item, and the reader, in the source, looked at nothing behind the
place of the next text. -/
structure IsSettled (source : String) (entries : List Ledger.Entry) (earlier : List Item)
    (item : Item) : Prop where
  untouched : textsIn entries item = []
  inside : item.keptFrom ≤ item.span.stop
  settledBy : item.SettledBy true source earlier (nextText source entries item.keptTo)

/-- Whether the item, with its texts, is of this kind is told without a look at what follows it in the
output: it is as it was and settled, or the reader knows it by its own text. -/
def ReadsItself (source : String) (entries : List Ledger.Entry) (earlier : List Item) (item : Item)
    (kind : ItemKind) : Prop :=
  IsSettled source entries earlier item ∧ kind = item.kind.move (· - item.span.start) ∨
    StandsAlone true (typedText source entries item) kind

/-- A settled item is read as itself. -/
private theorem readsAs_of_isSettled (read : Script.parse true source = .ok outline)
    (unmarked : source.toList.head? ≠ some '\uFEFF') (parts : outline.items = earlier ++ item :: later)
    (isLater : typings.map (·.1) = later) (fit : Fit source entries outline.items)
    (isSettled : IsSettled source entries earlier item)
    (spaced : Spaced (.statement (typedText source entries item) (item.kind.move (· - item.span.start))
      :: typedPassages source entries item.keptTo typings)) (strict : Bool) :
    typedText source entries item ≠ [] ∧
      (grammar plenty).ReadsAs (.top true) strict (typedText source entries item)
        (item.kind.move (· - item.span.start)) (typedPassages source entries item.keptTo typings) := by
  obtain ⟨untouched, inside, settledBy⟩ := isSettled
  have inOrder := parts ▸ inOrder_of_parse unmarked read
  have atEnd : item.keptTo = item.span.stop := Nat.max_eq_right inside
  have ends := inOrder.right.endCut item List.mem_cons_self
  obtain ⟨cut, behind, more, goesOn⟩ := spell_behind (parts ▸ fit) inOrder isLater
  have plain : typedText source entries item = (item.span.text source).toList := by
    rw [typedText, untouched, atEnd]
    rfl
  rw [atEnd] at settledBy ends cut behind goesOn spaced ⊢
  rw [plain] at spaced ⊢
  exact settledBy.readsAs read unmarked parts ends cut behind goesOn spaced strict

private theorem reads_of_readsItself (read : Script.parse true source = .ok outline)
    (unmarked : source.toList.head? ≠ some '\uFEFF') (fit : Fit source entries outline.items)
    (before : List (Item × ItemKind)) (items : (before ++ typings).map (·.1) = outline.items)
    (cursor : Nat) (spaced : Spaced (typedPassages source entries cursor typings))
    (each : ∀ earlier item kind later, before ++ typings = earlier ++ (item, kind) :: later →
      ReadsItself source entries (earlier.map (·.1)) item kind) (strict : Bool) :
    (grammar plenty).Reads (.top true) strict (typedPassages source entries cursor typings) := by
  induction typings generalizing before cursor strict with
  | nil => exact True.intro
  | cons typing later ih =>
    obtain ⟨item, kind⟩ := typing
    have parts : outline.items = before.map (·.1) ++ item :: later.map (·.1) := by
      rw [← items, List.map_append]
      rfl
    have assoc : before ++ (item, kind) :: later = before ++ [(item, kind)] ++ later := by simp
    obtain ⟨-, statement⟩ := spaced
    have others := ih (before ++ [(item, kind)]) (assoc ▸ items) item.keptTo statement.2 (assoc ▸ each)
      true
    obtain ⟨isSettled, rfl⟩ | alone := each before item kind later rfl
    · obtain ⟨filled, reads⟩ :=
        readsAs_of_isSettled read unmarked parts rfl fit isSettled statement strict
      exact ⟨filled, reads, others⟩
    · exact ⟨alone.filled, alone.readsAs statement strict, others⟩

/-- If the texts of the items are kept apart, it is enough that each item is read by itself as what it
is meant to be. -/
theorem readsApart_of_readsItself (read : Script.parse true source = .ok outline)
    (unmarked : source.toList.head? ≠ some '\uFEFF') (items : typings.map (·.1) = outline.items)
    (fit : Fit source entries outline.items) (spaced : Spaced (typedPassages source entries 0 typings))
    (each : ∀ earlier item kind later, typings = earlier ++ (item, kind) :: later →
      ReadsItself source entries (earlier.map (·.1)) item kind) :
    ReadsApart true (typedPassages source entries 0 typings) :=
  readsApart_of_spaced spaced (reads_of_readsItself read unmarked fit [] items 0 spaced each false)

end TypedSvelte.Kit
