import TypedSvelte.Script.Reader

/-!
# Offsets within a text

What is read from a text is told by offsets of it. `Within size a` says of a token, a pattern, an
outline or whatever else holds offsets that all of them lie within the first `size` bytes.
-/
namespace TypedSvelte.Script

/-- What holds offsets of a text. -/
class Located (α : Type) where
  /-- All its offsets lie within the first `size` bytes. -/
  Within (size : Nat) (a : α) : Prop

export Located (Within)

/-- What holds no offset of a text. -/
class Unplaced (α : Type) [Located α] : Prop where
  within (size : Nat) (a : α) : Within size a

instance : Located PUnit := ⟨fun _ _ => True⟩
instance : Located Bool := ⟨fun _ _ => True⟩
instance : Located Char := ⟨fun _ _ => True⟩
instance : Located String := ⟨fun _ _ => True⟩
instance : Located Context := ⟨fun _ _ => True⟩
instance : Located ChunkEnd := ⟨fun _ _ => True⟩

instance : Unplaced PUnit := ⟨fun _ _ => True.intro⟩
instance : Unplaced Bool := ⟨fun _ _ => True.intro⟩
instance : Unplaced Char := ⟨fun _ _ => True.intro⟩
instance : Unplaced String := ⟨fun _ _ => True.intro⟩
instance : Unplaced ChunkEnd := ⟨fun _ _ => True.intro⟩

instance : Located Nat := ⟨fun size offset => offset ≤ size⟩

variable {α β : Type} [Located α] [Located β]

instance : Located (Option α) := ⟨fun size a? => ∀ a ∈ a?, Within size a⟩
instance : Located (List α) := ⟨fun size as => ∀ a ∈ as, Within size a⟩
instance : Located (α × β) := ⟨fun size pair => Within size pair.1 ∧ Within size pair.2⟩
instance : Located Span := ⟨fun size s => s.start ≤ size ∧ s.stop ≤ size⟩
instance : Located TokenKind := ⟨fun size kind => ∀ offset, kind = .invalid offset → offset ≤ size⟩

instance : Located Token where
  Within size t := t.start ≤ size ∧ t.stop ≤ size ∧ Within size t.kind ∧ Within size t.faults

variable {size offset : Nat}

@[simp, grind .]
theorem within_of_unplaced [Unplaced α] (a : α) : Within size a := Unplaced.within size a

instance [Unplaced α] : Unplaced (List α) := ⟨fun _ _ a _ => within_of_unplaced a⟩
instance [Unplaced α] : Unplaced (Option α) := ⟨fun _ _ a _ => within_of_unplaced a⟩

@[grind =]
theorem within_offset : Within size offset ↔ offset ≤ size := .rfl

@[simp, grind =]
theorem within_some {a : α} : Within size (some a) ↔ Within size a := by simp [Within]

@[simp, grind .]
theorem within_none : Within size (none : Option α) := by simp [Within]

@[simp, grind .]
theorem within_nil : Within size ([] : List α) := by simp [Within]

@[simp, grind =]
theorem within_cons {a : α} {as : List α} :
    Within size (a :: as) ↔ Within size a ∧ Within size as := by simp [Within]

@[simp, grind =]
theorem within_pair {pair : α × β} :
    Within size pair ↔ Within size pair.1 ∧ Within size pair.2 := .rfl

@[grind =]
theorem within_span {s : Span} : Within size s ↔ s.start ≤ size ∧ s.stop ≤ size := .rfl

@[grind =]
theorem within_token {t : Token} :
    Within size t ↔
      t.start ≤ size ∧ t.stop ≤ size ∧ Within size t.kind ∧ Within size t.faults := .rfl

@[grind =]
theorem within_invalid : Within size (.invalid offset : TokenKind) ↔ offset ≤ size := by
  simp [Within]

@[simp, grind =]
theorem within_append {as bs : List α} :
    Within size (as ++ bs) ↔ Within size as ∧ Within size bs := by
  simp [Within, or_imp, forall_and]

@[simp, grind =]
theorem within_reverse {as : List α} : Within size as.reverse ↔ Within size as := by simp [Within]

@[grind ←]
theorem within_tail {as : List α} (within : Within size as) : Within size as.tail :=
  fun a member => within a (List.mem_of_mem_tail member)

@[grind ←]
theorem within_find? {as : List α} {test : α → Bool} (within : Within size as) :
    Within size (as.find? test) :=
  fun a found => within a (List.mem_of_find?_eq_some found)

/-- What is taken from parts of something lies where they lie. -/
@[grind ←]
theorem within_map {as : List α} {f : α → β} (within : Within size as)
    (kept : ∀ a, Within size a → Within size (f a)) : Within size (as.map f) :=
  List.forall_mem_map.2 fun a member => kept a (within a member)

@[grind ←]
theorem within_filterMap {as : List α} {f : α → Option β} (within : Within size as)
    (kept : ∀ a, Within size a → Within size (f a)) : Within size (as.filterMap f) := by
  intro b member
  obtain ⟨a, source, found⟩ := List.mem_filterMap.1 member
  exact kept a (within a source) b found

@[grind ←]
theorem within_getElem {as : List α} {i : Nat} {valid : i < as.length} (within : Within size as) :
    Within size as[i] := within _ (List.getElem_mem valid)

@[grind ←]
theorem within_option_map {a? : Option α} {f : α → β} (within : Within size a?)
    (kept : ∀ a, Within size a → Within size (f a)) : Within size (a?.map f) := by
  cases a? with
  | none => exact within_none
  | some a => exact within_some.2 (kept a (within_some.1 within))

@[grind ←]
theorem within_getD {a? : Option α} {a : α} (within : Within size a?) (other : Within size a) :
    Within size (a?.getD a) := by
  cases a? with
  | none => exact other
  | some a => exact within_some.1 within

@[grind ←]
theorem within_option_bind {a? : Option α} {f : α → Option β} (within : Within size a?)
    (kept : ∀ a, Within size a → Within size (f a)) : Within size (a?.bind f) := by
  cases a? with
  | none => exact within_none
  | some a => exact kept a (within_some.1 within)

theorem within_orElse {a? b? : Option α} (first : Within size a?) (second : Within size b?) :
    Within size (a? <|> b?) := by
  cases a? with
  | none => exact second
  | some a => exact first

mutual

/-- All offsets of a pattern lie within the first `size` bytes. -/
def Pattern.Inside (size : Nat) : Pattern → Prop
  | .name place _ typeStop => Within size place ∧ Within size typeStop
  | .array place typeStop parts | .object place typeStop parts =>
    Within size place ∧ Within size typeStop ∧ Pattern.AllInside size parts
  | .rest place typeStop target => Within size place ∧ Within size typeStop ∧ target.Inside size
  | .withDefault place target => Within size place ∧ target.Inside size
  | .other place => Within size place

def Pattern.AllInside (size : Nat) : List Pattern → Prop
  | [] => True
  | p :: ps => p.Inside size ∧ Pattern.AllInside size ps

end

instance : Located Pattern := ⟨Pattern.Inside⟩

namespace Pattern

theorem allInside_iff {ps : List Pattern} : AllInside size ps ↔ Within size ps := by
  induction ps with
  | nil => exact ⟨fun _ => within_nil, fun _ => True.intro⟩
  | cons p ps ih => exact (and_congr_right fun _ => ih).trans (within_cons (a := p)).symm

section

variable {place : Span} {typeStop : Option Nat} {text : String} {target : Pattern}
  {parts : List Pattern}

@[grind =]
theorem within_name : Within size (name place text typeStop) ↔
    Within size place ∧ Within size typeStop := .rfl

@[grind =]
theorem within_array : Within size (array place typeStop parts) ↔
    Within size place ∧ Within size typeStop ∧ Within size parts :=
  and_congr_right fun _ => and_congr_right fun _ => allInside_iff

@[grind =]
theorem within_object : Within size (object place typeStop parts) ↔
    Within size place ∧ Within size typeStop ∧ Within size parts :=
  and_congr_right fun _ => and_congr_right fun _ => allInside_iff

@[grind =]
theorem within_rest : Within size (rest place typeStop target) ↔
    Within size place ∧ Within size typeStop ∧ Within size target := .rfl

@[grind =]
theorem within_withDefault : Within size (withDefault place target) ↔
    Within size place ∧ Within size target := .rfl

@[grind =]
theorem within_other : Within size (other place) ↔ Within size place := .rfl

end

/-- The bytes of a pattern lie in the text. -/
@[grind ←]
theorem within_span {p : Pattern} (within : Within size p) : Within size p.span := by
  have stop {place : Span} {typeStop : Option Nat} (lies : Within size place)
      (typed : Within size typeStop) :
      Within size (⟨place.start, typeStop.getD place.stop⟩ : Span) := by
    cases typeStop with
    | none => exact lies
    | some stop => exact ⟨lies.1, within_some.1 typed⟩
  cases p with
  | name place text typeStop => exact stop within.1 within.2
  | array place typeStop parts => exact stop within.1 within.2.1
  | object place typeStop parts => exact stop within.1 within.2.1
  | rest place typeStop target => exact stop within.1 within.2.1
  | withDefault place target => exact within.1
  | other place => exact within

@[grind ←]
theorem start_le_of_within {p : Pattern} (within : Within size p) : p.span.start ≤ size :=
  (within_span within).1

mutual

/-- The names of a pattern stand in the text. -/
@[grind ←]
theorem within_places : {p : Pattern} → Within size p → Within size p.places
  | name _ _ _, within => within_cons.2 ⟨⟨within.1, within_of_unplaced _⟩, within_nil⟩
  | array _ _ _, within => within_placesOf (within_array.1 within).2.2
  | object _ _ _, within => within_placesOf (within_object.1 within).2.2
  | rest _ _ target, within => within_places (p := target) (within_rest.1 within).2.2
  | withDefault _ target, within => within_places (p := target) (within_withDefault.1 within).2
  | other _, _ => within_nil

private theorem within_placesOf : {ps : List Pattern} → Within size ps → Within size (placesOf ps)
  | [], _ => within_nil
  | _ :: _, within =>
    have lies := within_cons.1 within
    within_append.2 ⟨within_places lies.1, within_placesOf lies.2⟩

end

end Pattern

instance : Located FunctionShape where
  Within size shape := shape.start ≤ size ∧ Within size shape.params ∧ shape.bodyStart ≤ size

@[grind =]
theorem within_shape {shape : FunctionShape} : Within size shape ↔
    shape.start ≤ size ∧ Within size shape.params ∧ shape.bodyStart ≤ size := .rfl

mutual

/-- All offsets of a value lie within the first `size` bytes. -/
def Value.Inside (size : Nat) : Value → Prop
  | .function shape | .arrow shape => Within size shape
  | .group inner | .satisfying inner | .asserted inner | .assignment inner => inner.Inside size
  | .object properties => Value.AllInside size properties
  | .name _ | .text _ | .assertedConst | .other => True

def Value.AllInside (size : Nat) : List (String × Value) → Prop
  | [] => True
  | property :: properties => Value.PropertyInside size property ∧ Value.AllInside size properties

def Value.PropertyInside (size : Nat) : String × Value → Prop
  | (_, value) => value.Inside size

end

instance : Located Value := ⟨Value.Inside⟩

namespace Value

theorem allInside_iff {properties : List (String × Value)} :
    AllInside size properties ↔ Within size properties := by
  induction properties with
  | nil => exact ⟨fun _ => within_nil, fun _ => True.intro⟩
  | cons property properties ih =>
    obtain ⟨name, value⟩ := property
    have same : PropertyInside size (name, value) ↔ Within size (name, value) :=
      ⟨fun inside => ⟨within_of_unplaced name, inside⟩, And.right⟩
    exact (and_congr same ih).trans within_cons.symm

section

variable {shape : FunctionShape} {inner : Value} {text : String}
  {properties : List (String × Value)}

@[grind =] theorem within_function : Within size (function shape) ↔ Within size shape := .rfl

@[grind =] theorem within_arrow : Within size (arrow shape) ↔ Within size shape := .rfl

@[grind =] theorem within_group : Within size (group inner) ↔ Within size inner := .rfl

@[grind =] theorem within_satisfying : Within size (satisfying inner) ↔ Within size inner := .rfl

@[grind =] theorem within_asserted : Within size (asserted inner) ↔ Within size inner := .rfl

@[grind =] theorem within_assignment : Within size (assignment inner) ↔ Within size inner := .rfl

@[grind =] theorem within_object : Within size (object properties) ↔ Within size properties :=
  allInside_iff

@[grind .] theorem within_name : Within size (name text) := True.intro

@[grind .] theorem within_text : Within size (Value.text text) := True.intro

@[grind .] theorem within_assertedConst : Within size assertedConst := True.intro

@[grind .] theorem within_other : Within size other := True.intro

end

end Value

instance : Located Declarator where
  Within size d := Within size d.target ∧ Within size d.initial

@[grind =]
theorem within_declarator {d : Declarator} :
    Within size d ↔ Within size d.target ∧ Within size d.initial := .rfl

instance : Located Declaration where
  Within size
    | .function _ shape => Within size shape
    | .bindings declarators | .disposable declarators => Within size declarators
    | .classNamed _ | .enum _ | .typeOnly => True

namespace Declaration

variable {name : String} {shape : FunctionShape} {declarators : List Declarator}

@[grind =] theorem within_function : Within size (function name shape) ↔ Within size shape := .rfl

@[grind =]
theorem within_bindings : Within size (bindings declarators) ↔ Within size declarators := .rfl

@[grind =]
theorem within_disposable : Within size (disposable declarators) ↔ Within size declarators := .rfl

@[grind .] theorem within_classNamed : Within size (classNamed name) := True.intro

@[grind .] theorem within_enum : Within size (enum name) := True.intro

@[grind .] theorem within_typeOnly : Within size typeOnly := True.intro

end Declaration

/-- All offsets of a statement lie within the first `size` bytes. -/
def Statement.Inside (size : Nat) : Statement → Prop
  | .declaration declared => Within size declared
  | .labelled _ body => body.Inside size
  | .expression value => Within size value
  | .other => True

instance : Located Statement := ⟨Statement.Inside⟩

namespace Statement

variable {declared : Declaration} {label : String} {body : Statement} {value : Value}

@[grind =]
theorem within_declaration : Within size (declaration declared) ↔ Within size declared := .rfl

@[grind =] theorem within_labelled : Within size (labelled label body) ↔ Within size body := .rfl

@[grind =] theorem within_expression : Within size (expression value) ↔ Within size value := .rfl

@[grind .] theorem within_other : Within size other := True.intro

end Statement

instance : Located ExportName where
  Within size
    | .ident _ => True
    | .string place => Within size place

@[grind .]
theorem ExportName.within_ident {name : String} : Within size (ident name) := True.intro

@[grind =]
theorem ExportName.within_string {place : Span} : Within size (string place) ↔ Within size place :=
  .rfl

instance : Located ExportSpecifier where
  Within size
    | .named source exported _ => Within size source ∧ Within size exported
    | .everything => True

@[grind =]
theorem ExportSpecifier.within_named {source : ExportName} {exported : Option ExportName}
    {isTypeOnly : Bool} : Within size (named source exported isTypeOnly) ↔
      Within size source ∧ Within size exported := .rfl

@[grind .]
theorem ExportSpecifier.within_everything : Within size everything := True.intro

instance : Located ItemKind where
  Within size
    | .statement content => Within size content
    | .exportDeclaration start declared => start ≤ size ∧ Within size declared
    | .exportClause _ _ specifiers => Within size specifiers
    | .exportDefault _ value => Within size value
    | .imports _ | .exportAll | .other => True

namespace ItemKind

variable {content : Statement} {declared : Declaration} {name : Option String}
  {value : Option Value} {specifiers : List ExportSpecifier} {isTypeOnly fromModule : Bool}
  {locals : List String}

@[grind =]
theorem within_statement : Within size (statement content) ↔ Within size content := .rfl

@[grind =]
theorem within_exportDeclaration : Within size (exportDeclaration offset declared) ↔
    offset ≤ size ∧ Within size declared := .rfl

@[grind =]
theorem within_exportClause : Within size (exportClause isTypeOnly fromModule specifiers) ↔
    Within size specifiers := .rfl

@[grind =]
theorem within_exportDefault : Within size (exportDefault name value) ↔ Within size value := .rfl

@[grind .]
theorem within_imports : Within size (imports locals) := True.intro

@[grind .]
theorem within_exportAll : Within size exportAll := True.intro

@[grind .]
theorem within_other : Within size other := True.intro

end ItemKind

instance : Located Item where
  Within size item := Within size item.span ∧ Within size item.kind

@[grind =]
theorem within_item {item : Item} :
    Within size item ↔ Within size item.span ∧ Within size item.kind := .rfl

end TypedSvelte.Script
