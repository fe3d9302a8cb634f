import TypedSvelte.Proofs.Kit.Augmentation
import TypedSvelte.Proofs.Kit.TypedPassages
import TypedSvelte.Proofs.Script.ExportSketch
import TypedSvelte.Proofs.Script.ExportsAlike

/-!
# Items with types inserted

Whether a rule inserts anything for an export depends on the form of the export alone
(`entriesFor_eq_nil_iff`). What a type is inserted for must be what it was, but for its types, and have
the type that was inserted (`Retyped`). So an item that nothing is inserted into is meant to be read
as itself, and another one as a declaration of the same names that has the types (`IsRetyped`). A
script with such items exports the same names as the one before (`items_alike`).
-/
namespace TypedSvelte

namespace Script

/-- Both are functions with the same marks and as many parameters, or both are variables that have a
value or none. -/
def ExportSketch.SameForm : ExportSketch → ExportSketch → Prop
  | .function isArrow isAsync isGenerator _ params,
    .function isArrow' isAsync' isGenerator' _ params' =>
    isArrow = isArrow' ∧ isAsync = isAsync' ∧ isGenerator = isGenerator' ∧
      params.length = params'.length
  | .variable _ hasValue, .variable _ hasValue' => hasValue = hasValue'
  | .other, .other => True
  | _, _ => False

/-- A function with types of its only parameter and, unless it is a generator, of its result; a
variable with a type. -/
def ExportSketch.IsTyped : ExportSketch → Prop
  | .function _ _ isGenerator hasReturnType params =>
    params = [true] ∧ (isGenerator = true ∨ hasReturnType = true)
  | .variable isTyped _ => isTyped = true
  | .other => False

theorem ExportSketch.SameForm.refl (sketch : ExportSketch) : sketch.SameForm sketch := by
  cases sketch with
  | function => exact ⟨rfl, rfl, rfl, rfl⟩
  | _ => trivial

private theorem FunctionShape.isTyped_of_sketch {isArrow : Bool} {shape : FunctionShape}
    (typed : (ExportSketch.ofShape isArrow shape).IsTyped) : shape.isTyped = true := by
  obtain ⟨params, -⟩ := typed
  obtain ⟨p, single, typed⟩ := List.map_eq_singleton_iff.1 params
  rw [FunctionShape.isTyped, single, List.head?_cons, Option.map_some, Option.getD_some, typed,
    Bool.or_true]

/-- What has the types has a type. -/
theorem Bound.hasType_of_sketch {source : String} {b : Bound} (typed : (b.sketch source).1.IsTyped) :
    (b.sketch source).2 = true := by
  rcases b with shape | d | isTyped | _
  · exact FunctionShape.isTyped_of_sketch typed
  · have ofFunction {isArrow : Bool} {shape : FunctionShape}
        (typed : (ExportSketch.ofShape isArrow shape).IsTyped) :
        (d.target.isTyped || shape.isTyped) = true := by
      rw [FunctionShape.isTyped_of_sketch typed, Bool.or_true]
    unfold Bound.sketch Bound.shape at typed ⊢
    dsimp only at typed ⊢
    split at typed
    · exact ofFunction typed
    · exact ofFunction typed
    · rfl
    · rfl
    · rfl
    · exact typed
  · cases typed
  · cases typed

end Script

namespace Kit

open Script

/-- A text is inserted into the head of what is exported: before the body of a function, or behind the
name of another variable. -/
def Receives (entries : List Ledger.Entry) : ExportShape → Prop
  | .function f => ∃ e ∈ entries, f.shape.start < e.position ∧ e.position ≤ f.shape.bodyStart
  | .variable (some d) => ∃ place, d.place? = some place ∧ ∃ e ∈ entries, e.position = place.stop
  | .variable none => False

/-- Of the same form as before, with a type if there was one, and with the types that texts were
inserted for. -/
structure Retyped (entries : List Ledger.Entry) (before : ExportShape × Bool)
    (after : ExportSketch × Bool) : Prop where
  form : before.1.sketch.SameForm after.1
  keeps : before.2 = true → after.2 = true
  typed : Receives entries before.1 → after.1.IsTyped

/-- A type is for what has this form. -/
def Typing.fits : Typing → ExportSketch → Bool
  | .function _ _, .function _ _ _ _ params => params.length == 1
  | .variable _, .variable _ hasValue => hasValue
  | _, _ => false

theorem Typing.fits_eq_of_sameForm (typing : Typing) {first second : ExportSketch}
    (form : first.SameForm second) : typing.fits second = typing.fits first := by
  rcases first with ⟨_, _, _, _, params⟩ | ⟨_, hasValue⟩ | _ <;>
    rcases second with ⟨_, _, _, _, params'⟩ | ⟨_, hasValue'⟩ | _
  case function.function =>
    obtain ⟨-, -, -, count⟩ := form
    cases typing with
    | function =>
      change (params'.length == 1) = (params.length == 1)
      rw [count]
    | _ => rfl
  case variable.variable =>
    obtain rfl : hasValue = hasValue' := form
    cases typing <;> rfl
  case other.other => rfl
  all_goals cases form

private theorem functionEntries_eq_nil_iff {source param result : String} {f : FunctionExport} :
    functionEntries source f param result = [] ↔ f.shape.params.length ≠ 1 := by
  unfold functionEntries
  rcases f.shape.params with _ | ⟨p, _ | ⟨_, _⟩⟩
  · simp
  · dsimp only
    split <;> simp
  · simp

/-- Whether anything is inserted depends on the form alone. -/
theorem entriesFor_eq_nil_iff {source : String} {typing : Typing} {shape : ExportShape} :
    entriesFor source typing shape = [] ↔ typing.fits shape.sketch = false := by
  rcases typing with ⟨param, result⟩ | type <;> rcases shape with f | _ | d
  case function.function =>
    refine functionEntries_eq_nil_iff.trans ?_
    simp [Typing.fits, ExportShape.sketch, ExportSketch.ofShape]
  case variable.variable.some =>
    unfold entriesFor
    dsimp only [Typing.fits, ExportShape.sketch]
    cases d.initial <;> cases d.place? <;> simp
  all_goals exact ⟨fun _ => rfl, fun _ => rfl⟩

/-- The texts for a function stand in its head, the last of them behind its beginning. -/
private theorem exists_in_head {source param result : String} {shape : FunctionShape} {isArrow : Bool}
    (accurate : shape.Accurate source)
    (filled : functionEntries source (.ofShape source shape isArrow) param result ≠ []) :
    ∃ e ∈ functionEntries source (.ofShape source shape isArrow) param result,
      shape.start < e.position ∧ e.position ≤ shape.bodyStart := by
  have single : shape.params.length = 1 := by
    by_contra other
    exact filled (functionEntries_eq_nil_iff.2 other)
  obtain ⟨p, params⟩ := List.length_eq_one_iff.1 single
  have inside := accurate.params p (params ▸ List.mem_singleton_self p)
  obtain ⟨behind, atMost, _⟩ := range_paramEnd inside
  obtain ⟨first, last⟩ := inside.nested
  have member : ∃ text, ⟨paramEnd source p, text⟩ ∈
      functionEntries source (.ofShape source shape isArrow) param result := by
    unfold functionEntries
    dsimp only [FunctionExport.ofShape]
    rw [params]
    dsimp only
    split
    · exact ⟨_, List.mem_cons_of_mem _ (List.mem_singleton_self _)⟩
    · exact ⟨_, List.mem_cons_self⟩
  obtain ⟨text, member⟩ := member
  exact ⟨_, member, by change shape.start < paramEnd source p; omega,
    by change paramEnd source p ≤ shape.bodyStart; omega⟩

/-- There is a text wherever a rule asks for one. This may fail only if a name is declared twice:
then one declaration is typed, but another rule may be for another one. -/
def Reading.Fills (r : Reading) (entries : List Ledger.Entry) : Prop :=
  ∀ rule name asked, r.Asks rule name asked → ∀ e ∈ asked, ∃ f ∈ entries, f.position = e.position

private theorem shape_cases (source : String) (b : Bound) :
    (∃ shape isArrow, b.function? = some shape ∧
      (b.shape source).1 = .function (.ofShape source shape isArrow)) ∨
    ∃ declarator, (b.shape source).1 = .variable declarator := by
  rcases b with shape | d | isTyped | _
  · exact .inl ⟨shape, false, rfl, rfl⟩
  · rcases shape_variable_cases source d with isFunction | ⟨_, same⟩
    · exact .inl isFunction
    · exact .inr ⟨some d, same⟩
  · exact .inr ⟨none, rfl⟩
  · exact .inr ⟨none, rfl⟩

/-- What a rule asks for receives it. -/
theorem Reading.receives_of_fits {r : Reading} (sound : r.Sound) {entries : List Ledger.Entry}
    (fills : r.Fills entries) {rule : Rule} (inRules : rule ∈ r.rules) {entry : ExportEntry}
    (found : r.exports.entries.get? rule.name = some entry) (untyped : entry.hasExplicitType = false)
    (fits : rule.typing.fits entry.shape.sketch = true) : Receives entries entry.shape := by
  have filled : entriesFor r.subject.source rule.typing entry.shape ≠ [] := fun none =>
    Bool.false_ne_true ((entriesFor_eq_nil_iff.1 none).symm.trans fits)
  have recorded := fills rule entry.localName _ ⟨inRules, ⟨entry, found, rfl, untyped, rfl⟩, filled⟩
  rcases sound.originates rule.name entry found with free | ⟨item, inScript, bound, declares, same⟩
  · rw [free] at filled
    cases typing : rule.typing <;> rw [typing] at filled <;> exact absurd rfl filled
  have accurate := (sound.accurate.declarations item inScript _ declares).function
  have shape : entry.shape = (bound.shape r.subject.source).1 := by
    rw [same, Subject.boundEntry_shape]
  obtain ⟨function, isArrow, isFunction, kind⟩ | ⟨declarator, kind⟩ :=
    shape_cases r.subject.source bound
  · rw [shape, kind] at fits filled recorded ⊢
    rcases typing : rule.typing with ⟨param, result⟩ | type <;> rw [typing] at fits filled recorded
    · obtain ⟨e, member, above, within⟩ := exists_in_head (accurate function isFunction) filled
      obtain ⟨f, inLedger, position⟩ := recorded e member
      exact ⟨f, inLedger, position ▸ above, position ▸ within⟩
    · cases fits
  · rw [shape, kind] at fits filled recorded ⊢
    rcases typing : rule.typing with ⟨param, result⟩ | type <;> rw [typing] at fits filled recorded
    · cases declarator <;> cases fits
    · cases declarator with
      | none => cases fits
      | some d =>
        obtain ⟨hasValue, named⟩ := Bool.and_eq_true_iff.1 fits
        obtain ⟨value, initial⟩ := Option.isSome_iff_exists.1 hasValue
        obtain ⟨place, named⟩ := Option.isSome_iff_exists.1 named
        have texts : entriesFor r.subject.source (.variable type) (.variable (some d)) =
            [⟨place.stop, ": " ++ type⟩] := by
          unfold entriesFor
          dsimp only
          rw [initial, named]
        obtain ⟨f, inLedger, position⟩ := recorded _ (texts ▸ List.mem_singleton_self _)
        exact ⟨place, named, f, inLedger, position⟩

/-- What a name is bound to has been typed where texts were inserted. -/
def BoundRetyped (source : String) (entries : List Ledger.Entry) (before after : Bound) : Prop :=
  Retyped entries (before.shape source) (after.sketch source)

/-- The kind that an item is meant to have with the texts inserted, with offsets that count from where
it begins. -/
inductive IsRetyped (source : String) (entries : List Ledger.Entry) (item : Item) : ItemKind → Prop
  | untouched (none : textsIn entries item = []) :
      IsRetyped source entries item (item.kind.move (· - item.span.start))
  | declared {first second : Declaration} (kind : item.kind = .statement (.declaration first))
      (alike : BoundAlike (BoundRetyped source entries) first.bound second.bound) :
      IsRetyped source entries item (.statement (.declaration second))
  | exported {start behind : Nat} {first second : Declaration}
      (kind : item.kind = .exportDeclaration start first)
      (alike : BoundAlike (BoundRetyped source entries) first.bound second.bound) :
      IsRetyped source entries item (.exportDeclaration behind second)

variable {source : String} {entries : List Ledger.Entry} {item : Item}

/-- Nothing is inserted for the names of an item that nothing is inserted into. -/
private theorem not_receives (accurate : ∀ d ∈ item.bound, d.2.Accurate source item.span)
    (none : textsIn entries item = []) {name : String} {b : Bound} (declares : (name, b) ∈ item.bound) :
    ¬ Receives entries (b.shape source).1 := by
  have inside := accurate _ declares
  have absent {e : Ledger.Entry} (member : e ∈ entries) (above : item.span.start < e.position)
      (within : e.position ≤ item.span.stop) : False := by
    have inItem : e ∈ textsIn entries item :=
      mem_textsIn.2 ⟨member, above, Nat.le_trans within (Nat.le_max_right _ _)⟩
    rw [none] at inItem
    cases inItem
  rcases b with shape | d | isTyped | _
  · obtain ⟨first, last⟩ := inside.head _ rfl
    rintro ⟨e, member, above, within⟩
    exact absent member (Nat.lt_of_le_of_lt first above) (Nat.le_trans within last)
  · obtain ⟨place, named⟩ := exists_place_of_mem_bound declares
    obtain ⟨filled, -, behind⟩ := inside.name place named
    rcases shape_variable_cases source d with ⟨shape, isArrow, isFunction, same⟩ | ⟨isValue, same⟩
    · obtain ⟨first, last⟩ := inside.head ⟨place.start, shape.bodyStart⟩
        (by simp [Bound.head?, named, isFunction])
      have order := behind shape isFunction
      rw [same]
      rintro ⟨e, member, above, within⟩
      refine absent member ?_ (Nat.le_trans within last)
      change shape.start < e.position at above
      dsimp only at first
      omega
    · obtain ⟨first, last⟩ := inside.head place (by simp [Bound.head?, named, isValue])
      rw [same]
      rintro ⟨other, again, e, member, position⟩
      cases named.symm.trans again
      exact absent member (by omega) (by omega)
  · exact id
  · exact id

/-- The names of a declaration that has been typed, in its place. -/
private theorem boundAlike_moved {f : Nat → Nat} {first second : Declaration}
    (alike : BoundAlike (BoundRetyped source entries) first.bound second.bound) :
    BoundAlike (BoundRetyped source entries) first.bound (second.move f).bound := by
  rw [second.bound_move]
  refine List.forall₂_map_right_iff.2 (alike.imp fun a b same => ⟨same.1, ?_⟩)
  unfold BoundRetyped
  rw [Bound.sketch_move source source]
  exact same.2

private theorem names_of_boundAlike {first second : List (String × Bound)} {R : Bound → Bound → Prop}
    (alike : BoundAlike R first second) : second.map (·.1) = first.map (·.1) := by
  induction alike with
  | nil => rfl
  | cons same _ ih => rw [List.map_cons, List.map_cons, same.1, ih]

/-- An item that has been typed is alike. -/
theorem alike_of_isRetyped {s other : Subject} {own : Item} {text y : List Char} {offset : Nat}
    {kind : ItemKind} (retyped : IsRetyped s.source entries item kind)
    (accurate : ∀ d ∈ item.bound, d.2.Accurate s.source item.span)
    (inPlace : item = own.shift item.span.start)
    (inside : ∀ n ∈ own.kind.ends, n ≤ own.span.stop)
    (first : IsCut s.source item.span.start) (last : IsCut s.source item.keptTo)
    (there : Resumes other.source.toList offset (typedText s.source entries item ++ y)) :
    ItemAlike (BoundRetyped s.source entries) s other item ((itemOf text kind).shift offset) := by
  cases retyped with
  | untouched none =>
    have undone : Function.LeftInverse (· - item.span.start) (· + item.span.start) :=
      (Nat.add_sub_cancel · item.span.start)
    have back : item.kind.move (· - item.span.start) = own.kind :=
      (congrArg (·.kind.move (· - item.span.start)) inPlace).trans
        (congrArg Item.kind (own.move_back undone))
    have stop : item.span.stop = own.span.stop + item.span.start := congrArg (·.span.stop) inPlace
    have ordered : item.span.start ≤ item.keptTo :=
      Nat.le_trans (by omega) (Nat.le_max_right item.keptFrom item.span.stop)
    obtain ⟨⟨x, here⟩, size⟩ := resumes_text first last ordered
    have covers : own.span.stop ≤
        byteSize ((Span.mk item.span.start item.keptTo).text s.source).toList := by
      have atMost : item.span.stop ≤ item.keptTo := Nat.le_max_right _ _
      omega
    have plain : typedText s.source entries item =
        ((Span.mk item.span.start item.keptTo).text s.source).toList := by
      rw [typedText, none]
      rfl
    have same : ItemAlike (BoundRetyped s.source entries) s other (own.shift item.span.start)
        ((itemOf text own.kind).shift offset) := by
      refine alike_moved _ _ (fun d member => ?_) inside fun localName name ends => ?_
      · have declares : (d.1, d.2.move (· + item.span.start)) ∈ item.bound := by
          rw [congrArg Item.bound inPlace, Item.shift, own.bound_move]
          exact List.mem_map_of_mem member
        have sketch : (d.2.move (· + offset)).sketch s.source =
            (d.2.move (· + item.span.start)).sketch s.source := by
          rw [Bound.sketch_move s.source s.source, Bound.sketch_move s.source s.source]
        refine ⟨?_, ?_, fun receives => absurd receives (not_receives accurate none declares)⟩
        · rw [sketch]
          exact .refl _
        · rw [sketch]
          exact id
      · exact exportedName_shifted here (plain ▸ there) localName fun n member =>
          Nat.le_trans (ends n member) covers
    rw [back]
    exact inPlace.symm ▸ same
  | @declared before after kind alike =>
    have bound : item.bound = before.bound := by simp [Item.bound, Item.declaration?, kind]
    have moved := boundAlike_moved (f := (· + offset)) alike
    refine ⟨bound ▸ moved, ?_, ?_, ?_, fun _ => rfl⟩
    · rw [show item.inlineBound = [] by simp [Item.inlineBound, kind]]
      exact .nil
    · simp [Item.specifiers, kind, itemOf, Item.shift, Item.move, ItemKind.move]
    · rw [show item.plainNames = before.bound.map (·.1) by simp [Item.plainNames, kind]]
      exact names_of_boundAlike moved
  | @exported start behind before after kind alike =>
    have bound : item.bound = before.bound := by simp [Item.bound, Item.declaration?, kind]
    have inline : item.inlineBound = before.bound := by simp [Item.inlineBound, kind]
    have moved := boundAlike_moved (f := (· + offset)) alike
    refine ⟨bound ▸ moved, inline ▸ moved, ?_, ?_, fun _ => rfl⟩
    · simp [Item.specifiers, kind, itemOf, Item.shift, Item.move, ItemKind.move]
    · simp [Item.plainNames, kind, itemOf, Item.shift, Item.move, ItemKind.move]

/-- An item that has been read is one with offsets of its own, in its place, and its strings are in
it. -/
theorem exists_own_of_parse {typed : Bool} {outline : Outline}
    (unmarked : source.toList.head? ≠ some '\uFEFF') (read : Script.parse typed source = .ok outline) :
    ∀ item ∈ outline.items, ∃ own, item = Item.shift item.span.start own ∧
      ∀ n ∈ own.kind.ends, n ≤ own.span.stop := by
  intro item member
  obtain ⟨earlier, later, parts⟩ := List.append_of_mem member
  obtain ⟨last, itemized, -, -, faultless, -⟩ :=
    (parse_eq_ok_iff (withoutMark_of_unmarked unmarked)).1 read
  obtain ⟨rest, own, next, -, ran, same, -⟩ := itemized.reading faultless (sits_first _) parts
  have alone := Cursor.sits_standing (isMarkedToRun source.toList || !earlier.isEmpty) rest
  refine ⟨own, same, fun n ends => ?_⟩
  rw [(Grammar.keptFrom_of_moduleItem alone ran).1]
  exact Grammar.ends_of_moduleItem alone ran n ends

/-- The items of a script and those of the script with types inserted are alike. -/
theorem items_alike {s other : Subject} {typings : List (Item × ItemKind)} {cursor offset : Nat}
    (retyped : ∀ t ∈ typings, IsRetyped s.source entries t.1 t.2)
    (accurate : ∀ item ∈ typings.map (·.1), ∀ d ∈ item.bound, d.2.Accurate s.source item.span)
    (own : ∀ item ∈ typings.map (·.1), ∃ own, item = Item.shift item.span.start own ∧
      ∀ n ∈ own.kind.ends, n ≤ own.span.stop)
    (inOrder : InOrder s.source (typings.map (·.1)))
    (there : Resumes other.source.toList offset
      (spell (typedPassages s.source entries cursor typings))) :
    List.Forall₂ (ItemAlike (BoundRetyped s.source entries) s other) (typings.map (·.1))
      (itemsOf offset (typedPassages s.source entries cursor typings)) := by
  induction typings generalizing cursor offset with
  | nil => exact .nil
  | cons typing later ih =>
    obtain ⟨item, kind⟩ := typing
    obtain ⟨here, others⟩ := List.forall_mem_cons.1 retyped
    obtain ⟨accurateHere, accurateOthers⟩ := List.forall_mem_cons.1 accurate
    obtain ⟨⟨original, inPlace, inside⟩, ownOthers⟩ := List.forall_mem_cons.1 own
    rw [typedPassages, spell_cons, spell_cons] at there
    refine .cons ?_ (ih others accurateOthers ownOthers inOrder.tail there.append.append)
    exact alike_of_isRetyped here accurateHere inPlace inside
      (inOrder.startCut item List.mem_cons_self) (inOrder.endCut item List.mem_cons_self) there.append

end Kit

end TypedSvelte
