import TypedSvelte.Component.Transpile

/-!
# The loop over the items

Of an instance script, everything is copied but the gaps of its items. The loop stops copying at the
beginning of an item that has a gap and goes on behind the gap; at a reactive statement it may put a
declaration in between. There is one equation for each of these (`bodyPieces_of_gap`,
`bodyPieces_of_due`, `bodyPieces_of_whole`), and an item is always one of the three steps
(`ScriptBlock.steps_bodyPieces`).
-/
namespace TypedSvelte

namespace Script

/-- What a component loses of an item: an export clause, and what comes before an exported
declaration. -/
def Item.dropped? (item : Item) : Option Span :=
  match item.kind with
  | .exportClause _ _ _ => some item.span
  | .exportDeclaration start _ => some ⟨item.span.start, start⟩
  | _ => none

/-- The item, if it is an import. -/
def Item.imported? (item : Item) : Option Span :=
  match item.kind with
  | .imports _ => some item.span
  | _ => none

theorem Item.span_of_imported? {item : Item} {s : Span} (imported : item.imported? = some s) :
    s = item.span := by
  unfold Item.imported? at imported
  split at imported
  · exact (Option.some.inj imported).symm
  · cases imported

theorem Item.start_of_dropped? {item : Item} {s : Span} (dropped : item.dropped? = some s) :
    s.start = item.span.start := by
  unfold Item.dropped? at dropped
  split at dropped
  · cases Option.some.inj dropped
    rfl
  · cases Option.some.inj dropped
    rfl
  · cases dropped

end Script

namespace Component

open Markup Script

/-- What the copy of the script leaves out of an item, in the component. -/
def ScriptBlock.gap? (block : ScriptBlock) (item : Item) : Option Span :=
  (item.imported?.or item.dropped?).map (·.shift block.base)

/-- The name that an item assigns to as a reactive statement. -/
def reactiveName? (item : Item) : Option String :=
  match item.kind with
  | .statement s => reactiveTarget? s
  | _ => none

/-- The name that the loop declares before an item, after the names in `forward`. -/
def dueName? (isDeclared : String → Bool) (forward : List String) (item : Item) : Option String :=
  (reactiveName? item).filter fun name => !(isDeclared name || forward.contains name)

def declarationLine (name : String) : String := "let " ++ name ++ ";\n"

section

variable {block : ScriptBlock} {isDeclared : String → Bool} {stop : Nat} {forward : List String}
  {item : Item}

theorem reactiveName?_of_gap {gap : Span} (found : block.gap? item = some gap) :
    reactiveName? item = none := by
  obtain ⟨span, kind⟩ := item
  cases kind with
  | statement _ => cases found
  | _ => rfl

theorem bodyPieces_of_gap {gap : Span} (found : block.gap? item = some gap) (cursor : Nat)
    (rest : List Item) : bodyPieces block isDeclared stop cursor forward (item :: rest) =
      .copied ⟨cursor, (block.place item).start⟩ ::
        bodyPieces block isDeclared stop gap.stop forward rest := by
  obtain ⟨span, kind⟩ := item
  cases kind with
  | imports _ | exportClause _ _ _ =>
    cases found
    rfl
  | exportDeclaration start _ =>
    cases found
    change _ = _ :: bodyPieces _ _ _ (start + block.base) _ _
    rw [Nat.add_comm]
    rfl
  | statement _ | exportAll | exportDefault _ _ | other => cases found

theorem bodyPieces_of_due {name : String} (due : dueName? isDeclared forward item = some name)
    (cursor : Nat) (rest : List Item) :
    bodyPieces block isDeclared stop cursor forward (item :: rest) =
      .copied ⟨cursor, (block.place item).start⟩ :: .fresh (declarationLine name) ::
        bodyPieces block isDeclared stop (block.place item).start (name :: forward) rest := by
  obtain ⟨span, kind⟩ := item
  obtain ⟨named, new⟩ := Option.filter_eq_some_iff.1 due
  cases kind with
  | statement content =>
    have target : reactiveTarget? content = some name := named
    rw [Bool.not_eq_true', Bool.eq_false_iff] at new
    rw [bodyPieces]
    dsimp only
    rw [target]
    exact if_neg new
  | _ => cases named

theorem bodyPieces_of_whole (whole : block.gap? item = none)
    (undue : dueName? isDeclared forward item = none) (cursor : Nat) (rest : List Item) :
    bodyPieces block isDeclared stop cursor forward (item :: rest) =
      bodyPieces block isDeclared stop cursor forward rest := by
  obtain ⟨span, kind⟩ := item
  cases kind with
  | imports _ | exportClause _ _ _ | exportDeclaration _ _ => cases whole
  | statement content =>
    rw [bodyPieces]
    dsimp only
    cases target : reactiveTarget? content with
    | none => rfl
    | some name =>
      have old := Option.filter_eq_none_iff.1 undue name target
      rw [Bool.not_eq_true', Bool.not_eq_false] at old
      exact if_pos old
  | exportAll | exportDefault _ _ | other => rfl

end

/-- What the loop does with an item, after which it goes on with the rest from `next`. -/
inductive ScriptBlock.Steps (block : ScriptBlock) (cursor : Nat) (item : Item) :
    List Piece → Nat → Prop
  /-- A part of the item is left out. -/
  | skip {gap : Span} (found : block.gap? item = some gap) :
      Steps block cursor item [.copied ⟨cursor, (block.place item).start⟩] gap.stop
  /-- The item will be copied with what comes after it. -/
  | pass (unfound : block.gap? item = none) : Steps block cursor item [] cursor
  /-- A declaration splits the copy at the beginning of the item. -/
  | declare (unfound : block.gap? item = none) (text : String) :
      Steps block cursor item [.copied ⟨cursor, (block.place item).start⟩, .fresh text]
        (block.place item).start

/-- Every item is one step of the loop. -/
theorem ScriptBlock.steps_bodyPieces (block : ScriptBlock) (isDeclared : String → Bool)
    (stop cursor : Nat) (forward : List String) (item : Item) (rest : List Item) :
    ∃ step next forward', block.Steps cursor item step next ∧
      bodyPieces block isDeclared stop cursor forward (item :: rest) =
        step ++ bodyPieces block isDeclared stop next forward' rest := by
  cases found : block.gap? item with
  | some gap => exact ⟨_, _, forward, .skip found, bodyPieces_of_gap found cursor rest⟩
  | none =>
    cases due : dueName? isDeclared forward item with
    | some name =>
      exact ⟨_, _, name :: forward, .declare found _, bodyPieces_of_due due cursor rest⟩
    | none => exact ⟨_, _, forward, .pass found, bodyPieces_of_whole found due cursor rest⟩

end Component

end TypedSvelte
