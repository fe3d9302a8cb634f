import Mathlib.Data.List.Pairwise
import TypedSvelte.Proofs.Position.Spans
import TypedSvelte.Proofs.Script.ExportOrigin
import TypedSvelte.Proofs.Text.Bytes

/-!
# Accurate outlines

What is relied on of the places in an outline. They are on character boundaries of the text and
nested like the constructs that they belong to, and a parameter ends before the body of its
function. Of a declaration only the head matters here: the part before the body of a function, or
the name of another variable. Heads of different declarations are disjoint.
-/
namespace TypedSvelte.Script

/-- What a parameter with a default value declares. -/
def Pattern.defaulted? : Pattern → Option Pattern
  | .withDefault _ target => some target
  | _ => none

/-- A parameter of a function that begins at `low` and has its body at `high`. -/
structure Pattern.Accurate (source : String) (low high : Nat) (p : Pattern) : Prop where
  nested : low ≤ p.span.start ∧ p.span.stop < high
  filled : p.span.start < p.span.stop
  cuts : IsCut source p.span.start ∧ IsCut source p.span.stop
  /-- No parameter begins with a closing parenthesis. -/
  opening : slice? source p.span.start (p.span.start + 1) ≠ some ")"
  target : ∀ target ∈ p.defaulted?, p.span.start < target.span.stop ∧
    target.span.stop ≤ p.span.stop ∧ IsCut source target.span.stop

structure FunctionShape.Accurate (source : String) (shape : FunctionShape) : Prop where
  bodyCut : IsCut source shape.bodyStart
  params : ∀ p ∈ shape.params, p.Accurate source shape.start shape.bodyStart

/-- The function that a variable is initialised with. -/
def Declarator.function? (d : Declarator) : Option FunctionShape :=
  match d.initial.map Value.ungrouped with
  | some (.arrow shape) | some (.function shape) => some shape
  | _ => none

def Bound.function? : Bound → Option FunctionShape
  | .function shape => some shape
  | .variable d => d.function?
  | .pattern _ | .other => none

/-- The place of the name, if it is that of a variable. -/
def Bound.name? : Bound → Option Span
  | .variable d => d.place?
  | .function _ | .pattern _ | .other => none

/-- The part of a declaration that types can be inserted into. -/
def Bound.head? : Bound → Option Span
  | .function shape => some ⟨shape.start, shape.bodyStart⟩
  | .variable d => d.place?.map fun place =>
    ⟨place.start, (d.function?.map (·.bodyStart)).getD place.stop⟩
  | .pattern _ | .other => none

/-- The head of a declaration lies in its item, and the name of a variable is not empty and before
its value. -/
structure Bound.Accurate (source : String) (item : Span) (bound : Bound) : Prop where
  head : ∀ head ∈ bound.head?, head.Inside item
  name : ∀ place ∈ bound.name?, place.start < place.stop ∧ IsCut source place.stop ∧
    ∀ shape ∈ bound.function?, place.stop ≤ shape.start
  function : ∀ shape ∈ bound.function?, shape.Accurate source

def Outline.heads (outline : Outline) : List (String × Span) :=
  outline.items.flatMap fun item =>
    item.bound.filterMap fun (name, bound) => bound.head?.map (name, ·)

structure Outline.Accurate (source : String) (outline : Outline) : Prop where
  declarations : ∀ item ∈ outline.items, ∀ declared ∈ item.bound,
    declared.2.Accurate source item.span
  disjoint : outline.heads.Pairwise fun a b => a.2.Apart b.2

instance (source : String) (low high : Nat) (p : Pattern) : Decidable (p.Accurate source low high) :=
  decidable_of_iff
    ((low ≤ p.span.start ∧ p.span.stop < high) ∧ p.span.start < p.span.stop ∧
      (IsCut source p.span.start ∧ IsCut source p.span.stop) ∧
      slice? source p.span.start (p.span.start + 1) ≠ some ")" ∧
      ∀ target ∈ p.defaulted?, p.span.start < target.span.stop ∧
        target.span.stop ≤ p.span.stop ∧ IsCut source target.span.stop)
    ⟨fun ⟨nested, filled, cuts, opening, target⟩ => ⟨nested, filled, cuts, opening, target⟩,
      fun ⟨nested, filled, cuts, opening, target⟩ => ⟨nested, filled, cuts, opening, target⟩⟩

instance (source : String) (shape : FunctionShape) : Decidable (shape.Accurate source) :=
  decidable_of_iff
    (IsCut source shape.bodyStart ∧
      ∀ p ∈ shape.params, p.Accurate source shape.start shape.bodyStart)
    ⟨fun ⟨bodyCut, params⟩ => ⟨bodyCut, params⟩, fun ⟨bodyCut, params⟩ => ⟨bodyCut, params⟩⟩

instance (source : String) (item : Span) (bound : Bound) : Decidable (bound.Accurate source item) :=
  decidable_of_iff
    ((∀ head ∈ bound.head?, head.Inside item) ∧
      (∀ place ∈ bound.name?, place.start < place.stop ∧ IsCut source place.stop ∧
        ∀ shape ∈ bound.function?, place.stop ≤ shape.start) ∧
      ∀ shape ∈ bound.function?, shape.Accurate source)
    ⟨fun ⟨head, name, function⟩ => ⟨head, name, function⟩,
      fun ⟨head, name, function⟩ => ⟨head, name, function⟩⟩

instance (source : String) (outline : Outline) : Decidable (outline.Accurate source) :=
  decidable_of_iff
    ((∀ item ∈ outline.items, ∀ declared ∈ item.bound, declared.2.Accurate source item.span) ∧
      outline.heads.Pairwise fun a b => a.2.Apart b.2)
    ⟨fun ⟨declarations, disjoint⟩ => ⟨declarations, disjoint⟩,
      fun ⟨declarations, disjoint⟩ => ⟨declarations, disjoint⟩⟩

variable {source : String} {outline : Outline}

theorem mem_heads {item : Item} (member : item ∈ outline.items) {name : String} {bound : Bound}
    (declares : (name, bound) ∈ item.bound) {head : Span} (isHead : bound.head? = some head) :
    (name, head) ∈ outline.heads := by
  refine List.mem_flatMap.2 ⟨item, member, List.mem_filterMap.2 ⟨(name, bound), declares, ?_⟩⟩
  simp [isHead]

/-- The heads of different names do not overlap. -/
theorem Outline.Accurate.apart (accurate : outline.Accurate source) {a b : String × Span}
    (aMember : a ∈ outline.heads) (bMember : b ∈ outline.heads) (differ : a.1 ≠ b.1) :
    a.2.Apart b.2 := by
  have symmetric : Std.Symm fun a b : String × Span => a.2.Apart b.2 :=
    ⟨fun _ _ => Span.Apart.symm⟩
  exact accurate.disjoint.forall aMember bMember fun same => differ (congrArg Prod.fst same)

end TypedSvelte.Script
