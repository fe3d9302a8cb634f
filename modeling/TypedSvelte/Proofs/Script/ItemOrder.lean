import TypedSvelte.Proofs.Script.ItemReading

/-!
# The order of items

The items of a script that is accepted come one behind another, and what an instance script keeps of
an item lies between its beginning and the next item (`inOrder_of_parse`). Nothing is said about the
offsets of a script that begins with a byte order mark: they count from behind it.
-/
namespace TypedSvelte.Script

/-- Where that begins which an instance script keeps of an item: behind imports and export clauses, at
the declaration that is exported, and at the beginning of any other item. -/
def Item.keptFrom (item : Item) : Nat :=
  match item.kind with
  | .imports _ | .exportClause _ _ _ => item.span.stop
  | .exportDeclaration start _ => start
  | .statement _ | .exportAll | .exportDefault _ _ | .other => item.span.start

/-- Where that ends which is kept of an item. -/
def Item.keptTo (item : Item) : Nat := max item.keptFrom item.span.stop

/-- Items come one behind another, with all offsets on character boundaries. -/
structure InOrder (source : String) (items : List Item) : Prop where
  startCut : ∀ item ∈ items, IsCut source item.span.start
  keptCut : ∀ item ∈ items, IsCut source item.keptFrom
  endCut : ∀ item ∈ items, IsCut source item.keptTo
  forward : ∀ item ∈ items, item.span.start ≤ item.keptFrom
  ordered : items.Pairwise fun a b => a.keptTo ≤ b.span.start

theorem InOrder.cons {source : String} {item : Item} {rest : List Item}
    (startCut : IsCut source item.span.start) (keptCut : IsCut source item.keptFrom)
    (stopCut : IsCut source item.span.stop) (forward : item.span.start ≤ item.keptFrom)
    (later : ∀ other ∈ rest, item.keptTo ≤ other.span.start) (inOrder : InOrder source rest) :
    InOrder source (item :: rest) where
  startCut := List.forall_mem_cons.2 ⟨startCut, inOrder.startCut⟩
  keptCut := List.forall_mem_cons.2 ⟨keptCut, inOrder.keptCut⟩
  endCut := by
    refine List.forall_mem_cons.2 ⟨?_, inOrder.endCut⟩
    unfold Item.keptTo
    rw [Nat.max_def]
    split
    · exact stopCut
    · exact keptCut
  forward := List.forall_mem_cons.2 ⟨forward, inOrder.forward⟩
  ordered := List.pairwise_cons.2 ⟨later, inOrder.ordered⟩

theorem InOrder.tail {source : String} {item : Item} {rest : List Item}
    (inOrder : InOrder source (item :: rest)) : InOrder source rest where
  startCut := (List.forall_mem_cons.1 inOrder.startCut).2
  keptCut := (List.forall_mem_cons.1 inOrder.keptCut).2
  endCut := (List.forall_mem_cons.1 inOrder.endCut).2
  forward := (List.forall_mem_cons.1 inOrder.forward).2
  ordered := (List.pairwise_cons.1 inOrder.ordered).2

theorem InOrder.right {source : String} {earlier later : List Item}
    (inOrder : InOrder source (earlier ++ later)) : InOrder source later := by
  induction earlier with
  | nil => exact inOrder
  | cons item earlier ih => exact ih inOrder.tail

/-- If the item is an exported declaration, this begins at an offset that satisfies `P`. -/
def ItemKind.Begins (P : Nat → Prop) : ItemKind → Prop
  | .exportDeclaration start _ => P start
  | _ => True

namespace Grammar

open Reader

variable {P : Nat → Prop} {g : Grammar} {context : Context} {cursor last : Cursor} {text : List Char}

private theorem previous_of_advance {value : Unit} (here : cursor.Sits text)
    (read : advance.run context cursor = .ok value last) : cursor.token.start ≤ last.previous := by
  cases read
  exact Nat.le_trans here.forward (Nat.le_add_right _ _)

private theorem previous_of_expectWord {name : String} {value : Unit} (here : cursor.Sits text)
    (read : (expectWord name).run context cursor = .ok value last) :
    cursor.token.start ≤ last.previous := by
  obtain ⟨eaten, between, eat, rest⟩ := run_bind read
  obtain ⟨isNext, same, next, eat⟩ := run_bind eat
  cases next
  cases word : cursor.token.isWord name with
  | false =>
    rw [word, if_neg Bool.false_ne_true] at eat
    obtain ⟨rfl, rfl⟩ := run_pure.1 eat
    exact absurd rest (yields_of_fail (P := fun _ => False) _ _ _ _)
  | true =>
    rw [word, if_pos rfl] at eat
    obtain ⟨_, moved, passed, eat⟩ := run_bind eat
    obtain ⟨rfl, rfl⟩ := run_pure.1 eat
    obtain ⟨_, rfl⟩ := run_pure.1 rest
    exact previous_of_advance here passed

private theorem yields_importAlias : importAlias.Yields (ItemKind.Begins P) := by
  unfold importAlias
  refine yields_of_last fun _ => yields_of_last fun _ => yields_of_last fun _ => ?_
  extract_lets later
  have laterYields (u : Unit) : (later u).Yields (ItemKind.Begins P) :=
    yields_of_last fun _ => yields_pure True.intro
  split
  · refine yields_of_last fun _ => yields_of_last fun _ => yields_of_last fun _ => ?_
    exact yields_of_last fun _ => laterYields ()
  · exact yields_of_last fun _ => laterYields ()

private theorem yields_importItem : (importItem g).Yields (ItemKind.Begins P) := by
  unfold importItem
  refine yields_of_last fun _ => yields_of_last fun t => ?_
  split
  · refine yields_of_last fun _ => yields_of_last fun _ => yields_of_last fun _ => ?_
    exact yields_pure True.intro
  refine yields_of_last fun _ => ?_
  extract_lets later
  have laterYields (head : ImportHead) : (later head).Yields (ItemKind.Begins P) := by
    unfold later
    extract_lets named
    have namedYields (u : Unit) : (named u).Yields (ItemKind.Begins P) :=
      yields_of_last fun _ => yields_of_last fun _ => yields_pure True.intro
    split
    · refine yields_of_last fun _ => yields_of_last fun _ => ?_
      split
      · exact yields_importAlias
      · refine yields_of_last fun _ => ?_
        split
        · exact namedYields ()
        · exact yields_of_last fun _ => namedYields ()
    · exact namedYields ()
  split
  · exact yields_of_last fun head => laterYields head
  · exact yields_of_last fun head => laterYields head

private theorem yields_exportClause (isTypeOnly : Bool) :
    (exportClause g isTypeOnly).Yields (ItemKind.Begins P) := by
  unfold exportClause
  refine yields_of_last fun _ => yields_of_last fun parts => yields_of_last fun isFrom => ?_
  split
  · exact yields_of_last fun _ => yields_pure True.intro
  · exact yields_of_last fun _ => yields_of_last fun _ => yields_pure True.intro

private theorem yields_exportAll (isTypeOnly : Bool) :
    (exportAll g isTypeOnly).Yields (ItemKind.Begins P) := by
  unfold exportAll
  refine yields_of_last fun _ => yields_of_last fun isNamed => ?_
  split
  · exact yields_of_last fun _ => yields_of_last fun _ => yields_pure True.intro
  · exact yields_of_last fun _ => yields_pure True.intro

private theorem yields_exportDefault : (exportDefault g).Yields (ItemKind.Begins P) := by
  unfold exportDefault
  refine yields_of_last fun _ => yields_of_last fun t => yields_of_last fun next => ?_
  refine yields_of_last fun typed => ?_
  split
  · exact yields_of_last fun _ => yields_of_last fun _ => yields_pure True.intro
  extract_lets isMarked later
  have laterYields (u : Unit) : (later u).Yields (ItemKind.Begins P) := by
    refine yields_of_last fun isInterface => ?_
    split
    · exact yields_of_last fun _ => yields_pure True.intro
    refine yields_of_last fun isClass => ?_
    split
    · exact yields_of_last fun _ => yields_pure True.intro
    refine yields_of_last fun isAsync => ?_
    split
    · exact yields_of_last fun _ => yields_of_last fun _ => yields_pure True.intro
    refine yields_of_last fun isFunction => ?_
    split
    · exact yields_of_last fun _ => yields_pure True.intro
    · exact yields_of_last fun _ => yields_of_last fun _ => yields_pure True.intro
  split
  · exact yields_of_last fun _ => yields_of_last fun _ => laterYields ()
  · exact laterYields ()

private theorem yields_typedExport? :
    (typedExport? g).Yields fun kind? => ∀ kind ∈ kind?, kind.Begins P := by
  have none : ∀ kind ∈ (none : Option ItemKind), kind.Begins P := nofun
  have other : ∀ kind ∈ some ItemKind.other, kind.Begins P := by
    rintro _ ⟨⟩
    exact True.intro
  unfold typedExport?
  refine yields_of_last fun typed => ?_
  split
  · refine yields_of_last fun isImport => ?_
    split
    · refine yields_of_last fun _ => yields_of_last fun _ => ?_
      extract_lets later
      have laterYields (u : Unit) :
          (later u).Yields fun kind? => ∀ kind ∈ kind?, kind.Begins P := by
        refine yields_of_last fun _ => ?_
        refine yields_bind (yields_importAlias (P := P)) fun kind begins => yields_pure ?_
        rintro _ ⟨⟩
        exact begins
      split
      · exact yields_of_last fun _ => laterYields ()
      · exact laterYields ()
    refine yields_of_last fun isAssigned => ?_
    split
    · exact yields_of_last fun _ => yields_of_last fun _ => yields_pure other
    refine yields_of_last fun isGlobal => ?_
    split
    · refine yields_of_last fun _ => yields_of_last fun _ => yields_of_last fun _ => ?_
      exact yields_pure other
    · exact yields_pure none
  · exact yields_pure none

/-- An exported declaration begins behind the word `export`, which is passed. -/
theorem begins_of_exportItem {kind : ItemKind} (here : cursor.Sits text)
    (read : (exportItem g).run context cursor = .ok kind last)
    (onTheWay : ∀ between, cursor.Leads between → between.Leads last → P between.token.start) :
    cursor.token.start ≤ last.previous ∧ kind.Begins P := by
  obtain ⟨_, between, word, read⟩ := run_bind read
  have passed := previous_of_expectWord here word
  have toWord := leads_of_run word
  have behind := leads_of_run read
  have atStart := onTheWay between toWord behind
  refine ⟨Nat.le_trans passed (behind.sits (toWord.sits here).1).2.2, ?_⟩
  obtain ⟨start, same, isHere, read⟩ := run_bind read
  cases isHere
  refine Yields.of_run ?_ read
  refine yields_of_last fun declared => ?_
  split
  · exact yields_pure atStart
  refine yields_bind (yields_typedExport? (P := P)) fun kind? begins => ?_
  split
  · exact yields_pure (begins _ rfl)
  refine yields_of_last fun isTypeOnly => ?_
  extract_lets later
  have laterYields (u : Unit) : (later u).Yields (ItemKind.Begins P) := by
    refine yields_of_last fun isAll => ?_
    split
    · exact yields_exportAll _
    · exact yields_exportClause _
  split
  · refine yields_of_last fun isDefault => ?_
    split
    · exact yields_exportDefault
    refine yields_of_last fun declared => ?_
    split
    · exact yields_pure atStart
    · exact laterYields ()
  · exact laterYields ()

private theorem stays_atImport {answer : Bool}
    (read : atImport.run context cursor = .ok answer last) : last = cursor := by
  obtain ⟨_, _, word, read⟩ := run_bind read
  cases word
  split at read
  · obtain ⟨_, _, peeked, read⟩ := run_bind read
    cases peeked
    cases read
    rfl
  · cases read
    rfl

/-- An item is a statement, or a word has been passed. -/
theorem begins_of_moduleItem {item : Item} (here : cursor.Sits text)
    (read : (moduleItem g).run context cursor = .ok item last)
    (onTheWay : ∀ between, cursor.Leads between → between.Leads last → P between.token.start) :
    item.span = ⟨cursor.token.start, last.previous⟩ ∧
      ((∃ content, item.kind = .statement content) ∨
        cursor.token.start ≤ last.previous ∧ item.kind.Begins P) := by
  -- An item ends where its kind has been read.
  have ends {kind : ItemKind} {between : Cursor} (read : (do
      return Item.mk (← spanFrom cursor.token.start) kind : Reader Item).run context between =
        .ok item last) : between = last ∧ item = ⟨⟨cursor.token.start, last.previous⟩, kind⟩ := by
    obtain ⟨span, same, covered, read⟩ := run_bind read
    cases covered
    cases read
    exact ⟨rfl, rfl⟩
  obtain ⟨start, same, isHere, read⟩ := run_bind read
  cases isHere
  obtain ⟨isImport, same, word, read⟩ := run_bind read
  obtain rfl := stays_atImport word
  split at read
  · obtain ⟨kind, between, inner, read⟩ := run_bind read
    obtain ⟨rfl, rfl⟩ := ends read
    obtain ⟨_, behind, word, rest⟩ := run_bind inner
    have passed := previous_of_expectWord here word
    have sits := ((leads_of_run word).sits here).1
    exact ⟨rfl, Or.inr ⟨Nat.le_trans passed ((leads_of_run rest).sits sits).2.2,
      yields_importItem.of_run inner⟩⟩
  obtain ⟨isExport, same, word, read⟩ := run_bind read
  cases word
  split at read
  · obtain ⟨kind, between, inner, read⟩ := run_bind read
    obtain ⟨rfl, rfl⟩ := ends read
    exact ⟨rfl, Or.inr (begins_of_exportItem here inner onTheWay)⟩
  · obtain ⟨content, between, _, read⟩ := run_bind read
    obtain ⟨kind, same, given, read⟩ := run_bind read
    cases given
    obtain ⟨rfl, rfl⟩ := ends read
    exact ⟨rfl, Or.inl ⟨content, rfl⟩⟩

/-- What is kept of an item begins on the way to the next one. -/
theorem keptFrom_of_moduleItem {item : Item} (here : cursor.Sits text)
    (read : (moduleItem g).run context cursor = .ok item last) :
    item.span = ⟨cursor.token.start, last.previous⟩ ∧ (∃ rest, Resumes text item.keptFrom rest) ∧
      cursor.token.start ≤ item.keptFrom ∧ item.keptFrom ≤ last.token.start := by
  obtain ⟨sits, onward, _⟩ := (leads_of_run read).sits here
  have atStart : (∃ rest, Resumes text cursor.token.start rest) ∧
      cursor.token.start ≤ cursor.token.start ∧ cursor.token.start ≤ last.token.start :=
    ⟨⟨_, here.token⟩, Nat.le_refl _, onward⟩
  obtain ⟨span, kind⟩ := begins_of_moduleItem here read
    (P := fun start => (∃ rest, Resumes text start rest) ∧ cursor.token.start ≤ start ∧
      start ≤ last.token.start) fun between toHere toLast =>
        have there := toHere.sits here
        ⟨⟨_, there.1.token⟩, there.2.1, (toLast.sits there.1).2.1⟩
  obtain ⟨_, kindOf⟩ := item
  cases span
  refine ⟨rfl, ?_⟩
  obtain ⟨content, rfl⟩ | ⟨passed, begins⟩ := kind
  · exact atStart
  · cases kindOf with
    | imports _ | exportClause _ _ _ => exact ⟨sits.previous, passed, sits.behind⟩
    | exportDeclaration start _ => exact begins
    | statement _ | exportAll | exportDefault _ _ | other => exact atStart

end Grammar

theorem keptFrom_shift (item : Item) (offset : Nat) :
    (item.shift offset).keptFrom = item.keptFrom + offset := by
  obtain ⟨span, kind⟩ := item
  cases kind <;> rfl

/-- Items that are read one behind another are in order, behind the place where the first of them
begins. -/
theorem Grammar.Itemized.inOrder {source : String} {g : Grammar} {context : Context} {strict : Bool}
    {cursor last : Cursor} {found : List Item}
    (itemized : Grammar.Itemized g context strict cursor found last)
    (here : cursor.Sits source.toList) :
    InOrder source found ∧ ∀ item ∈ found, cursor.token.start ≤ item.span.start := by
  induction itemized with
  | done => exact ⟨⟨nofun, nofun, nofun, nofun, .nil⟩, nofun⟩
  | @item strict cursor next last item later begins valid read others ih =>
    have alone := Cursor.sits_standing strict cursor.text
    obtain ⟨span, ⟨rest, kept⟩, forward, ends⟩ := keptFrom_of_moduleItem alone read
    have inner := ((Reader.leads_of_run read).sits alone).1
    obtain ⟨inOrder, behind⟩ := ih (here.rejoin inner)
    have start : (item.shift cursor.token.start).span.start = cursor.token.start := by
      change item.span.start + cursor.token.start = _
      rw [span]
      exact Nat.zero_add _
    have stop : (item.shift cursor.token.start).span.stop = next.previous + cursor.token.start := by
      change item.span.stop + cursor.token.start = _
      rw [span]
    have onward : cursor.token.start ≤ (item.shift cursor.token.start).keptFrom := by
      rw [keptFrom_shift]
      exact Nat.le_add_left _ _
    have toNext : (item.shift cursor.token.start).keptTo ≤ (next.rejoin cursor).token.start := by
      unfold Item.keptTo
      rw [keptFrom_shift, stop]
      exact Nat.max_le.2 ⟨Nat.add_le_add_right ends _, Nat.add_le_add_right inner.behind _⟩
    obtain ⟨_, previous⟩ := inner.previous
    refine ⟨.cons (start.symm ▸ here.token.isCut) ?_ (stop ▸ (here.token.trans previous).isCut)
      (start.symm ▸ onward) (fun other member => Nat.le_trans toNext (behind other member)) inOrder, ?_⟩
    · rw [keptFrom_shift]
      exact (here.token.trans kept).isCut
    · refine List.forall_mem_cons.2 ⟨Nat.le_of_eq start.symm, fun other member => ?_⟩
      exact Nat.le_trans (Nat.le_trans onward (Nat.le_trans (Nat.le_max_left _ _) toNext))
        (behind other member)

def markOf (text : List Char) : List Char :=
  if text.head? = some '\uFEFF' then ['\uFEFF'] else []

theorem markOf_append (text : List Char) : markOf text ++ withoutMark text = text := by
  unfold withoutMark
  split
  · rfl
  · rename_i unmarked
    have absent : text.head? ≠ some '\uFEFF' := by
      intro marked
      obtain ⟨rest, rfl⟩ := List.head?_eq_some_iff.1 marked
      exact unmarked rest rfl
    rw [markOf, if_neg absent, List.nil_append]

theorem withoutMark_of_unmarked {text : List Char} (unmarked : text.head? ≠ some '\uFEFF') :
    withoutMark text = text := by
  have whole := markOf_append text
  rwa [markOf, if_neg unmarked, List.nil_append] at whole

/-- The items of a script that is accepted are in order, if it does not begin with a byte order
mark. -/
theorem inOrder_of_parse {typed : Bool} {source : String} {outline : Outline}
    (unmarked : source.toList.head? ≠ some '\uFEFF') (read : parse typed source = .ok outline) :
    InOrder source outline.items := by
  obtain ⟨last, itemized, -⟩ := (parse_eq_ok_iff (withoutMark_of_unmarked unmarked)).1 read
  exact (itemized.inOrder (sits_first source.toList)).1

end TypedSvelte.Script
