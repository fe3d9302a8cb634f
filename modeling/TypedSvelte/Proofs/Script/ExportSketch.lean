import TypedSvelte.Proofs.Script.ExportTables

/-!
# Exports without their places

What an exported name is bound to can be told without any offsets (`ExportShape.sketch`): the form of
a function, which of its parameters have types, and whether a variable has a type and a value. This
does not depend on the text, nor on where in it a declaration stands (`sketch_move`).
-/
namespace TypedSvelte.Script

inductive ExportSketch where
  /-- For each parameter it is told whether it has a type. -/
  | function (isArrow isAsync isGenerator hasReturnType : Bool) (params : List Bool)
  /-- A variable with a declarator of its own, which may be a name with a value. -/
  | variable (isTyped hasValue : Bool)
  | other
  deriving DecidableEq, Repr

def ExportSketch.ofShape (isArrow : Bool) (shape : FunctionShape) : ExportSketch :=
  .function isArrow shape.isAsync shape.isGenerator shape.hasReturnType (shape.params.map Pattern.isTyped)

def ExportShape.sketch : ExportShape → ExportSketch
  | .function f => .ofShape f.isArrow f.shape
  | .variable (some d) => .variable d.target.isTyped (d.initial.isSome && d.place?.isSome)
  | .variable none => .other

/-- What a name is bound to without its places, and whether it has a type. -/
def Bound.sketch (source : String) (b : Bound) : ExportSketch × Bool :=
  let (shape, isTyped) := b.shape source
  (shape.sketch, isTyped)

/-- The same in another place: `f` tells where an offset is to be found. -/
def Bound.move (f : Nat → Nat) : Bound → Bound
  | .function shape => .function (shape.move f)
  | .variable declarator => .variable (declarator.move f)
  | .pattern isTyped => .pattern isTyped
  | .other => .other

variable {f : Nat → Nat}

theorem Pattern.isTyped_move (p : Pattern) : (p.move f).isTyped = p.isTyped := by
  fun_induction Pattern.isTyped p with
  | case1 | case2 | case3 => exact Option.isSome_map
  | case4 _ typeStop target ih => rw [move, isTyped, ih, Option.isSome_map]
  | case5 _ target ih => exact ih
  | case6 => rfl

mutual

theorem Pattern.places_move : (p : Pattern) →
    (p.move f).places = p.places.map fun place => (place.1.move f, place.2)
  | .name _ _ _ | .other _ => rfl
  | .array _ _ elements => placesOf_moveAll elements
  | .object _ _ properties => placesOf_moveAll properties
  | .rest _ _ target | .withDefault _ target => target.places_move

private theorem Pattern.placesOf_moveAll : (ps : List Pattern) →
    Pattern.placesOf (Pattern.moveAll f ps) =
      (Pattern.placesOf ps).map fun place => (place.1.move f, place.2)
  | [] => rfl
  | p :: ps => by
    rw [moveAll, placesOf, placesOf, p.places_move, placesOf_moveAll ps, List.map_append]

end

theorem Pattern.names_move (p : Pattern) : (p.move f).names = p.names := by
  rw [names, names, places_move, List.map_map]
  rfl

theorem Value.ungrouped_move : (v : Value) → (v.move f).ungrouped = v.ungrouped.move f
  | .group inner => inner.ungrouped_move
  | .name _ | .text _ | .object _ | .function _ | .arrow _ | .satisfying _ | .asserted _
  | .assertedConst | .assignment _ | .other => rfl

private theorem FunctionShape.isTyped_move (shape : FunctionShape) :
    (shape.move f).isTyped = shape.isTyped := by
  unfold FunctionShape.isTyped FunctionShape.move
  cases shape.params with
  | nil => rfl
  | cons p _ => simp [Pattern.isTyped_move]

private theorem ExportSketch.ofShape_move (isArrow : Bool) (shape : FunctionShape) :
    ofShape isArrow (shape.move f) = ofShape isArrow shape := by
  simp [ofShape, FunctionShape.move, Function.comp_def, Pattern.isTyped_move]

private theorem Declarator.place?_move (d : Declarator) :
    (d.move f).place? = d.place?.map (·.move f) := by
  obtain ⟨target, initial⟩ := d
  cases target <;> rfl

/-- Neither the text nor the place makes a difference. -/
theorem Bound.sketch_move (first second : String) (b : Bound) :
    (b.move f).sketch first = b.sketch second := by
  rcases b with shape | d | isTyped | _
  · exact Prod.ext (ExportSketch.ofShape_move false shape) shape.isTyped_move
  · have target : (d.move f).target.isTyped = d.target.isTyped := d.target.isTyped_move
    have initial : (d.move f).initial.map Value.ungrouped =
        (d.initial.map Value.ungrouped).map (·.move f) := by
      simp [Declarator.move, Function.comp_def, Value.ungrouped_move]
    have hasValue : (d.move f).initial.isSome = d.initial.isSome := Option.isSome_map
    have inPlace (shape : FunctionShape) :
        ((d.move f).target.isTyped || (shape.move f).isTyped) = (d.target.isTyped || shape.isTyped) := by
      rw [target, shape.isTyped_move]
    unfold Bound.move Bound.sketch Bound.shape
    dsimp only
    rw [initial]
    cases d.initial.map Value.ungrouped with
    | none => simp [ExportShape.sketch, target, hasValue, Declarator.place?_move]
    | some value =>
      cases value with
      | arrow shape => exact Prod.ext (ExportSketch.ofShape_move true shape) (inPlace shape)
      | function shape => exact Prod.ext (ExportSketch.ofShape_move false shape) (inPlace shape)
      | _ => simp [Value.move, ExportShape.sketch, target, hasValue, Declarator.place?_move]
  · rfl
  · rfl

theorem Bound.sketch_eq (first second : String) (b : Bound) : b.sketch first = b.sketch second :=
  (Bound.sketch_move (f := id) first first b).symm.trans (Bound.sketch_move first second b)

/-- The names in a pattern all have the type of the pattern. -/
private theorem bound_of_unnamed (d : Declarator) (unnamed : d.target.isName = false) :
    d.bound = d.target.names.map fun name => (name, .pattern d.target.isTyped) := by
  obtain ⟨target, initial⟩ := d
  cases target with
  | name => cases unnamed
  | _ => rfl

theorem Declarator.bound_move (d : Declarator) :
    (d.move f).bound = d.bound.map fun b => (b.1, b.2.move f) := by
  cases named : d.target.isName with
  | true =>
    obtain ⟨target, initial⟩ := d
    cases target with
    | name => rfl
    | _ => cases named
  | false =>
    have moved : (d.move f).target.isName = false := by
      obtain ⟨target, initial⟩ := d
      cases target <;> first | rfl | cases named
    rw [bound_of_unnamed d named, bound_of_unnamed (d.move f) moved, List.map_map]
    change (d.target.move f).names.map (fun name => (name, Bound.pattern (d.target.move f).isTyped)) = _
    rw [d.target.names_move, d.target.isTyped_move]
    rfl

theorem Declaration.bound_move (d : Declaration) :
    (d.move f).bound = d.bound.map fun b => (b.1, b.2.move f) := by
  cases d with
  | bindings declarators =>
    simp only [move, bound, List.flatMap_map, List.map_flatMap]
    exact congrArg (List.flatMap · declarators) (funext Declarator.bound_move)
  | function | classNamed | enum | disposable | typeOnly => rfl

theorem Item.bound_move (item : Item) :
    (item.move f).bound = item.bound.map fun b => (b.1, b.2.move f) := by
  have moved : (item.move f).declaration? = item.declaration?.map (·.move f) := by
    obtain ⟨span, kind⟩ := item
    cases kind with
    | statement content => cases content <;> rfl
    | _ => rfl
  unfold Item.bound
  rw [moved]
  cases item.declaration? with
  | none => rfl
  | some d => exact d.bound_move

end TypedSvelte.Script
