import TypedSvelte.Proofs.Script.Located

/-!
# Items counted from elsewhere

An item is read in offsets that count from its own beginning, and moved into its place. What has been
moved can be moved back (`Item.move_back`), so nothing of the item is lost. What lies within a text
lies, after a move, in the text around it (`within_item_shift`).
-/
namespace TypedSvelte.Script

section

variable {f back : Nat → Nat} (undone : Function.LeftInverse back f)

private theorem map_map_back {α : Type} {move moveBack : α → α} (each : ∀ a, moveBack (move a) = a)
    (as : List α) : (as.map move).map moveBack = as := by
  rw [List.map_map, funext each (f := moveBack ∘ move) (g := id), List.map_id]

private theorem option_map_back {α : Type} {move moveBack : α → α}
    (each : ∀ a, moveBack (move a) = a) (a? : Option α) : (a?.map move).map moveBack = a? := by
  cases a? with
  | none => rfl
  | some a => exact congrArg some (each a)

include undone

theorem span_move_back (s : Span) : (s.move f).move back = s := by
  obtain ⟨start, stop⟩ := s
  simp only [Span.move, undone _]

omit undone

mutual

theorem Pattern.move_back (undone : Function.LeftInverse back f) : (p : Pattern) → (p.move f).move back = p
  | .name place text typeStop => by
    simp only [Pattern.move, span_move_back undone, option_map_back undone]
  | .array place typeStop elements | .object place typeStop elements => by
    simp only [Pattern.move, span_move_back undone, option_map_back undone,
      moveAll_back undone elements]
  | .rest place typeStop target => by
    simp only [Pattern.move, span_move_back undone, option_map_back undone, move_back undone target]
  | .withDefault place target => by
    simp only [Pattern.move, span_move_back undone, move_back undone target]
  | .other place => by simp only [Pattern.move, span_move_back undone]

private theorem Pattern.moveAll_back (undone : Function.LeftInverse back f) :
    (ps : List Pattern) → Pattern.moveAll back (Pattern.moveAll f ps) = ps
  | [] => rfl
  | p :: ps => by simp only [Pattern.moveAll, move_back undone p, moveAll_back undone ps]

end

include undone

theorem FunctionShape.move_back (shape : FunctionShape) : (shape.move f).move back = shape := by
  simp only [FunctionShape.move, undone _, map_map_back (Pattern.move_back undone)]

omit undone

mutual

theorem Value.move_back (undone : Function.LeftInverse back f) : (v : Value) → (v.move f).move back = v
  | .object properties => by simp only [Value.move, moveAll_back undone properties]
  | .function shape | .arrow shape => by simp only [Value.move, shape.move_back undone]
  | .group inner | .satisfying inner | .asserted inner | .assignment inner => by
    simp only [Value.move, move_back undone inner]
  | .name _ | .text _ | .assertedConst | .other => rfl

private theorem Value.moveAll_back (undone : Function.LeftInverse back f) :
    (properties : List (String × Value)) →
      Value.moveAll back (Value.moveAll f properties) = properties
  | [] => rfl
  | (_, value) :: others => by
    simp only [Value.moveAll, move_back undone value, moveAll_back undone others]

end

include undone

private theorem Declarator.move_back (d : Declarator) : (d.move f).move back = d := by
  simp only [Declarator.move, d.target.move_back undone,
    option_map_back (Value.move_back undone)]

private theorem Declaration.move_back (d : Declaration) : (d.move f).move back = d := by
  cases d with
  | function name shape => simp only [Declaration.move, shape.move_back undone]
  | bindings list | disposable list =>
    simp only [Declaration.move, map_map_back (Declarator.move_back undone)]
  | classNamed _ | enum _ | typeOnly => rfl

private theorem Statement.move_back (content : Statement) : (content.move f).move back = content := by
  induction content with
  | declaration declared => simp only [Statement.move, declared.move_back undone]
  | labelled label body ih => simp only [Statement.move, ih]
  | expression value => simp only [Statement.move, value.move_back undone]
  | other => rfl

private theorem ExportSpecifier.move_back (e : ExportSpecifier) : (e.move f).move back = e := by
  have name (e : ExportName) : (e.move f).move back = e := by
    cases e with
    | ident _ => rfl
    | string place => simp only [ExportName.move, span_move_back undone]
  cases e with
  | everything => rfl
  | named source exported isTypeOnly =>
    simp only [ExportSpecifier.move, name, option_map_back name]

private theorem ItemKind.move_back (kind : ItemKind) : (kind.move f).move back = kind := by
  cases kind with
  | statement content => simp only [ItemKind.move, content.move_back undone]
  | exportDeclaration start declared =>
    simp only [ItemKind.move, undone _, declared.move_back undone]
  | exportClause _ _ specifiers =>
    simp only [ItemKind.move, map_map_back (ExportSpecifier.move_back undone)]
  | exportDefault _ value =>
    simp only [ItemKind.move, option_map_back (Value.move_back undone)]
  | imports _ | exportAll | other => rfl

theorem Item.move_back (item : Item) : (item.move f).move back = item := by
  simp only [Item.move, span_move_back undone, item.kind.move_back undone]

end

/-- Different items are different in any place. -/
theorem shift_inj {offset : Nat} {first second : Item}
    (same : first.shift offset = second.shift offset) : first = second := by
  have undone : Function.LeftInverse (· - offset) (· + offset) := (Nat.add_sub_cancel · offset)
  rw [← first.move_back undone, ← second.move_back undone]
  exact congrArg (Item.move (· - offset)) same

section

variable {α β : Type} [Located α] [Located β] {size limit : Nat} {f : Nat → Nat}

/-- What is taken from parts of something may lie elsewhere. -/
theorem within_map_of {l : List α} {g : α → β} (within : Within size l)
    (moved : ∀ a, Within size a → Within limit (g a)) : Within limit (l.map g) :=
  List.forall_mem_map.2 fun a member => moved a (within a member)

private theorem within_option_map_of {o : Option α} {g : α → β} (within : Within size o)
    (moved : ∀ a, Within size a → Within limit (g a)) : Within limit (o.map g) := by
  cases o with
  | none => exact within_none
  | some a => exact within_some.2 (moved a (within_some.1 within))

variable (room : ∀ n ≤ size, f n ≤ limit)

include room

private theorem within_span_move {s : Span} (within : Within size s) : Within limit (s.move f) :=
  ⟨room _ within.1, room _ within.2⟩

private theorem within_offset_move {n? : Option Nat} (within : Within size n?) :
    Within limit (n?.map f) :=
  within_option_map_of within room

omit room

mutual

private theorem within_pattern_move (room : ∀ n ≤ size, f n ≤ limit) :
    {p : Pattern} → Within size p → Within limit (p.move f)
  | .name _ _ _, within => ⟨within_span_move room within.1, within_offset_move room within.2⟩
  | .array _ _ _, within | .object _ _ _, within =>
    ⟨within_span_move room within.1, within_offset_move room within.2.1,
      allInside_moveAll room within.2.2⟩
  | .rest _ _ target, within =>
    ⟨within_span_move room within.1, within_offset_move room within.2.1,
      within_pattern_move room (p := target) within.2.2⟩
  | .withDefault _ target, within =>
    ⟨within_span_move room within.1, within_pattern_move room (p := target) within.2⟩
  | .other _, within => within_span_move room within

private theorem allInside_moveAll (room : ∀ n ≤ size, f n ≤ limit) :
    {ps : List Pattern} → Pattern.AllInside size ps →
      Pattern.AllInside limit (Pattern.moveAll f ps)
  | [], _ => True.intro
  | p :: _, within =>
    ⟨within_pattern_move room (p := p) within.1, allInside_moveAll room within.2⟩

end

private theorem within_shape_move (room : ∀ n ≤ size, f n ≤ limit) (shape : FunctionShape)
    (within : Within size shape) : Within limit (shape.move f) :=
  ⟨room _ within.1, within_map_of within.2.1 fun _ => within_pattern_move room,
    room _ within.2.2⟩

mutual

private theorem within_value_move (room : ∀ n ≤ size, f n ≤ limit) :
    {v : Value} → Within size v → Within limit (v.move f)
  | .function shape, within | .arrow shape, within =>
    within_shape_move room shape within
  | .group inner, within | .satisfying inner, within | .asserted inner, within
  | .assignment inner, within => within_value_move room (v := inner) within
  | .object _, within => allInside_properties_move room within
  | .name _, _ | .text _, _ | .assertedConst, _ | .other, _ => True.intro

private theorem allInside_properties_move (room : ∀ n ≤ size, f n ≤ limit) :
    {properties : List (String × Value)} → Value.AllInside size properties →
      Value.AllInside limit (Value.moveAll f properties)
  | [], _ => True.intro
  | (_, value) :: _, within =>
    ⟨within_value_move room (v := value) within.1, allInside_properties_move room within.2⟩

end

include room

private theorem within_declaration_move (declared : Declaration) (within : Within size declared) :
    Within limit (declared.move f) := by
  cases declared with
  | function name shape => exact within_shape_move room shape within
  | bindings list | disposable list =>
    refine within_map_of (l := list) within fun _ within => ?_
    exact ⟨within_pattern_move room within.1,
      within_option_map_of within.2 fun _ => within_value_move room⟩
  | classNamed _ | enum _ | typeOnly => exact True.intro

private theorem within_statement_move (content : Statement) (within : Within size content) :
    Within limit (content.move f) := by
  induction content with
  | declaration declared => exact within_declaration_move room declared within
  | labelled _ body ih => exact ih within
  | expression value => exact within_value_move room (v := value) within
  | other => exact True.intro

private theorem within_kind_move {kind : ItemKind} (within : Within size kind) :
    Within limit (kind.move f) := by
  have name {e : ExportName} (within : Within size e) : Within limit (e.move f) := by
    cases e with
    | ident _ => exact True.intro
    | string place => exact within_span_move room (s := place) within
  cases kind with
  | statement content => exact within_statement_move room content within
  | exportDeclaration start declared =>
    exact ⟨room _ within.1, within_declaration_move room declared within.2⟩
  | exportClause isTypeOnly fromModule specifiers =>
    refine within_map_of (l := specifiers) within fun e within => ?_
    cases e with
    | everything => exact True.intro
    | named source exported isTypeOnly =>
      exact ⟨name within.1, within_option_map_of within.2 fun _ => name⟩
  | exportDefault _ value =>
    exact within_option_map_of (o := value) within fun _ => within_value_move room
  | imports _ | exportAll | other => exact True.intro

omit room

theorem within_add {offset : Nat} (room : size + offset ≤ limit) {n : Nat} (within : Within size n) :
    Within limit (n + offset) :=
  Nat.le_trans (Nat.add_le_add_right within offset) room

/-- An item that lies within a text lies within the text around it. -/
theorem within_item_shift {offset : Nat} (room : size + offset ≤ limit) {item : Item}
    (within : Within size item) : Within limit (item.shift offset) :=
  have room (n : Nat) (inside : n ≤ size) := within_add room inside
  ⟨within_span_move room within.1, within_kind_move room within.2⟩

end

end TypedSvelte.Script
