import Mathlib.Tactic.Abel
import Mathlib.Algebra.Order.Group.Multiset
import TypedSvelte.Proofs.Component.TemplatePlaces
import TypedSvelte.Proofs.Markup.NestedDocuments
import TypedSvelte.Proofs.Markup.PlacedMarks
import TypedSvelte.Proofs.Position.Layout

/-!
# A template copies each expression once

The mappings of a template are copies of the spans that its marks refer to, each as often as it is
marked, with the subject of an `{#await}` block once more where its value is bound
(`sources_templatePieces`). Blank expressions and names leave no mapping. The order of the copies is
not that of the source, so they are counted as a multiset.
-/
namespace TypedSvelte.Component

open Markup

variable {source : String}

/-- The name of the directive is copied: as a variable that stands for the missing value, or as a
function. -/
def copiesName (d : Directive) : Bool :=
  match d.kind with
  | .on => false
  | .slotProp | .bind | .classToggle | .style => d.value.isNone
  | .action | .transition | .intro | .outro | .animate => true

/-- The spans that are copied for a mark: none for what is blank. -/
def copiesOf (source : String) : Mark → List Span
  | .expression e => if e.isEmpty then [] else [e.span]
  | .directive d =>
    if copiesName d && !d.name.isEmpty then [directiveName source d] else []

/-- The subject of an `{#await}` block, which is copied once more where its value is bound. -/
def copiesAgain (head : AwaitHead) : List Span :=
  if head.thenBinding.isSome && !head.expression.isEmpty then [head.expression.span] else []

mutual

/-- The `{#await}` blocks at any depth. -/
def awaitsOfNode : Node → List AwaitHead
  | .element _ children => awaitsOf children
  | .text _ | .comment _ | .mustache _ _ | .tag _ _ _ => []
  | .ifBlock _ _ consequent alternate => awaitsOf consequent ++ awaitsOfAlternate alternate
  | .each _ body fallback => awaitsOf body ++ awaitsOfBranch fallback
  | .await head pending onThen onCatch =>
    head :: awaitsOf pending ++ awaitsOfBranch onThen ++ awaitsOfBranch onCatch
  | .key _ _ body => awaitsOf body

/-- The `{#await}` blocks of nodes. -/
def awaitsOf : List Node → List AwaitHead
  | [] => []
  | node :: rest => awaitsOfNode node ++ awaitsOf rest

/-- The `{#await}` blocks of a branch, if it is there. -/
def awaitsOfBranch : Option (List Node) → List AwaitHead
  | none => []
  | some nodes => awaitsOf nodes

/-- The `{#await}` blocks of what follows the consequent of a condition. -/
def awaitsOfAlternate : Alternate → List AwaitHead
  | .absent => []
  | .otherwise nodes => awaitsOf nodes
  | .elseIf _ _ consequent alternate => awaitsOf consequent ++ awaitsOfAlternate alternate

end

/-- The source spans that pieces leave mappings of. -/
def sources (source : String) (pieces : List Piece) : Multiset Span :=
  (pieces.filterMap (·.mapped? source) : List Span)

def wanted (source : String) (marks : List Mark) : Multiset Span :=
  (marks.flatMap (copiesOf source) : List Span)

def wantedAgain (awaits : List AwaitHead) : Multiset Span :=
  (awaits.flatMap copiesAgain : List Span)

@[simp]
theorem sources_nil : sources source [] = 0 := rfl

@[simp]
theorem sources_append (first second : List Piece) :
    sources source (first ++ second) = sources source first + sources source second := by
  rw [sources, List.filterMap_append, ← Multiset.coe_add]
  rfl

@[simp]
theorem sources_fresh (text : String) (pieces : List Piece) :
    sources source (.fresh text :: pieces) = sources source pieces := by
  simp [sources]

/-- The copy of a span leaves a mapping of it unless it is empty. -/
def spanCopied (source : String) (span : Span) : Multiset Span :=
  if span.text source = "" then 0 else {span}

@[simp]
theorem sources_copied (span : Span) (pieces : List Piece) :
    sources source (.copied span :: pieces) = spanCopied source span + sources source pieces := by
  rw [sources, List.filterMap_cons, Piece.mapped?_copied, spanCopied]
  by_cases blank : span.text source = ""
  · simp only [blank, if_true, zero_add]
    rfl
  · simp only [blank, if_false]
    exact (Multiset.singleton_add span (sources source pieces)).symm

@[simp]
theorem sources_statementOf (span : Span) :
    sources source (statementOf span) = spanCopied source span := by
  simp [statementOf]

@[simp]
theorem wanted_nil : wanted source [] = 0 := rfl

private theorem wanted_cons (mark : Mark) (marks : List Mark) :
    wanted source (mark :: marks) = (copiesOf source mark : List Span) + wanted source marks := by
  rw [wanted, List.flatMap_cons, ← Multiset.coe_add]
  rfl

@[simp]
theorem wanted_append (first second : List Mark) :
    wanted source (first ++ second) = wanted source first + wanted source second := by
  rw [wanted, List.flatMap_append, ← Multiset.coe_add]
  rfl

@[simp]
theorem wantedAgain_nil : wantedAgain [] = 0 := rfl

private theorem wantedAgain_cons (head : AwaitHead) (awaits : List AwaitHead) :
    wantedAgain (head :: awaits) = (copiesAgain head : List Span) + wantedAgain awaits := by
  rw [wantedAgain, List.flatMap_cons, ← Multiset.coe_add]
  rfl

@[simp]
theorem wantedAgain_append (first second : List AwaitHead) :
    wantedAgain (first ++ second) = wantedAgain first + wantedAgain second := by
  rw [wantedAgain, List.flatMap_append, ← Multiset.coe_add]
  rfl

/-- The text of the expression, or the name of the directive, is what the source has at its
place. -/
def Shown (source : String) : Mark → Prop
  | .expression e => e.span.text source = e.text
  | .directive d => (directiveName source d).text source = d.name

private theorem shown_expressions {es : List Expression}
    (shown : ∀ mark ∈ expressionMarks es, Shown source mark) (e : Expression) (member : e ∈ es) :
    e.span.text source = e.text :=
  shown _ (List.mem_map_of_mem member)

private theorem spanCopied_expression {e : Expression} (shown : e.span.text source = e.text) :
    spanCopied source e.span = (copiesOf source (.expression e) : List Span) := by
  by_cases blank : e.text = ""
  · simp [spanCopied, copiesOf, Expression.isEmpty, shown, blank]
  · simp [spanCopied, copiesOf, Expression.isEmpty, shown, blank]

private theorem spanCopied_name {d : Directive}
    (shown : (directiveName source d).text source = d.name) :
    spanCopied source (directiveName source d) =
      (if d.name.isEmpty then [] else [directiveName source d] : List Span) := by
  by_cases blank : d.name = ""
  · simp [spanCopied, shown, blank]
  · simp [spanCopied, shown, blank]

/-- One statement for each expression. -/
theorem sources_statements {es : List Expression}
    (shown : ∀ mark ∈ expressionMarks es, Shown source mark) :
    sources source (es.flatMap fun e => statementOf e.span) =
      wanted source (expressionMarks es) := by
  induction es with
  | nil => rfl
  | cons e rest ih =>
    obtain ⟨here, later⟩ := List.forall_mem_cons.1 shown
    rw [List.flatMap_cons, sources_append, sources_statementOf, spanCopied_expression here,
      ih later]
    exact (wanted_cons _ _).symm

private theorem sources_nameStatement {d : Directive}
    (shown : (directiveName source d).text source = d.name) :
    sources source (nameStatement source d) =
      (if d.name.isEmpty then [] else [directiveName source d] : List Span) := by
  rw [← spanCopied_name shown, nameStatement]
  split
  · rename_i blank
    rw [spanCopied_name shown, if_pos blank]
    rfl
  · exact sources_statementOf _

private theorem sources_valueStatement {d : Directive}
    (shown : ∀ mark ∈ expressionMarks d.value.toList, Shown source mark) :
    sources source (valueStatement d) = wanted source (expressionMarks d.value.toList) := by
  rw [← sources_statements shown, valueStatement]
  cases d.value <;> rfl

private theorem sources_slotBindingPieces {d : Directive}
    (name : (directiveName source d).text source = d.name)
    (shown : ∀ mark ∈ expressionMarks d.value.toList, Shown source mark) :
    sources source (slotBindingPieces source d) =
      if d.value.isSome then wanted source (expressionMarks d.value.toList)
      else (if d.name.isEmpty then [] else [directiveName source d] : List Span) := by
  rw [← sources_statements shown, ← spanCopied_name name, slotBindingPieces]
  cases d.value <;> simp

/-- A directive is copied where it stands or, if it takes a property of a slot, before the
children. -/
theorem sources_directive {d : Directive}
    (shown : ∀ mark ∈ (Attribute.directive d).marks, Shown source mark) :
    sources source (directivePieces source d) +
        sources source ((slotBindings [.directive d]).flatMap (slotBindingPieces source)) =
      wanted source (Attribute.directive d).marks := by
  obtain ⟨here, values⟩ := List.forall_mem_cons.1 shown
  have name := sources_nameStatement here
  have value := sources_valueStatement values
  have binding := sources_slotBindingPieces here values
  change _ = wanted source (.directive d :: expressionMarks d.value.toList)
  rw [wanted_cons, copiesOf, copiesName, directivePieces, slotBindings]
  cases kind : d.kind with
  | slotProp =>
    cases given : d.value with
    | none => simpa [kind, given, expressionMarks] using binding
    | some e => simpa [kind, given, expressionMarks] using binding
  | on => simpa [kind] using value
  | bind | classToggle | style =>
    cases given : d.value with
    | none => simpa [kind, given, expressionMarks] using name
    | some e => simpa [kind, given, expressionMarks] using value
  | action | transition | intro | outro | animate => simp [kind, name, value]

private theorem attributePieces_plain (a : PlainAttribute) :
    attributePieces source (.plain a) =
      (Attribute.plain a).expressions.flatMap fun e => statementOf e.span := by
  rw [attributePieces, Attribute.expressions]
  induction a.value with
  | nil => rfl
  | cons part rest ih =>
    cases part with
    | text t => exact ih
    | expression e => exact congrArg (statementOf e.span ++ ·) ih

private theorem sources_attribute {a : Attribute} (shown : ∀ mark ∈ a.marks, Shown source mark) :
    sources source (attributePieces source a) +
        sources source ((slotBindings [a]).flatMap (slotBindingPieces source)) =
      wanted source a.marks := by
  cases a with
  | plain a =>
    have marked := @sources_statements source (Attribute.plain a).expressions shown
    rw [attributePieces_plain, marked]
    exact add_zero _
  | shorthand e =>
    have marked := @sources_statements source [e] shown
    change _ = wanted source (expressionMarks [e])
    simpa [attributePieces, slotBindings] using marked
  | spread e =>
    have marked := @sources_statements source [e] shown
    change _ = wanted source (expressionMarks [e])
    simpa [attributePieces, slotBindings] using marked
  | directive d => exact sources_directive shown

/-- What an element copies of its attributes, be it before or after its block is opened. -/
theorem sources_attributes {attributes : List Attribute}
    (shown : ∀ mark ∈ attributes.flatMap Attribute.marks, Shown source mark) :
    sources source (attributes.flatMap (attributePieces source)) +
        sources source ((slotBindings attributes).flatMap (slotBindingPieces source)) =
      wanted source (attributes.flatMap Attribute.marks) := by
  induction attributes with
  | nil => rfl
  | cons a rest ih =>
    rw [List.flatMap_cons] at shown
    obtain ⟨here, later⟩ := List.forall_mem_append.1 shown
    have split : slotBindings (a :: rest) = slotBindings [a] ++ slotBindings rest :=
      List.filterMap_append (l := [a])
    simp only [split, List.flatMap_cons, List.flatMap_append, sources_append, wanted_append,
      ← sources_attribute here, ← ih later]
    abel

private theorem sources_elementPieces {head : ElementHead} {children : List Piece}
    (shown : ∀ mark ∈ head.attributes.flatMap Attribute.marks, Shown source mark) :
    sources source (elementPieces source head children) =
      wanted source (head.attributes.flatMap Attribute.marks) + sources source children := by
  rw [← sources_attributes shown, elementPieces]
  split
  · rename_i bindings
    simp [bindings]
  · simp only [sources_append, sources_fresh, sources_nil, zero_add, add_zero, add_assoc]

private theorem sources_tagPieces {kind : TagKind} {expression : Option Expression}
    (shown : ∀ mark ∈ expressionMarks expression.toList, Shown source mark) :
    sources source (tagPieces kind expression) =
      wanted source (expressionMarks expression.toList) := by
  rw [← sources_statements shown]
  cases expression with
  | none => rfl
  | some e => cases kind <;> simp [tagPieces]

private theorem sources_eachPieces {head : EachHead}
    (shown : ∀ mark ∈ expressionMarks head.parts, Shown source mark) :
    sources source (eachPieces head) = wanted source (expressionMarks head.parts) := by
  rw [← sources_statements shown]
  obtain ⟨span, subject, context, index, key⟩ := head
  cases context <;> cases index <;> cases key <;> simp [eachPieces, EachHead.parts] <;> abel

private theorem sources_conditionPieces {condition : Expression}
    (shown : Shown source (.expression condition)) :
    sources source (conditionPieces condition) =
      (copiesOf source (.expression condition) : List Span) := by
  simp [conditionPieces, spanCopied_expression shown]

private theorem sources_thenPieces {head : AwaitHead}
    (shown : ∀ mark ∈ expressionMarks head.parts, Shown source mark) :
    sources source (thenPieces head) =
      wanted source (expressionMarks head.thenBinding.toList) + (copiesAgain head : List Span) := by
  obtain ⟨subject, bindings⟩ := List.forall_mem_cons.1 shown
  have again := spanCopied_expression subject
  rw [copiesOf] at again
  rw [thenPieces, copiesAgain]
  cases binding : head.thenBinding with
  | none => rfl
  | some e =>
    have bound : Shown source (.expression e) := by
      refine shown_expressions shown e ?_
      simp [AwaitHead.parts, binding]
    have marked := @sources_statements source [e] (by simpa [expressionMarks] using bound)
    simp only [List.flatMap_cons, List.flatMap_nil, List.append_nil, sources_statementOf] at marked
    cases blank : head.expression.isEmpty <;> simp [marked, again, blank]

private theorem sources_catchPieces {head : AwaitHead}
    (shown : ∀ mark ∈ expressionMarks head.parts, Shown source mark) :
    sources source (catchPieces head) =
      wanted source (expressionMarks head.catchBinding.toList) := by
  have bound : ∀ mark ∈ expressionMarks head.catchBinding.toList, Shown source mark := by
    intro mark member
    obtain ⟨e, inBinding, rfl⟩ := List.mem_map.1 member
    exact shown_expressions shown e (List.mem_append_right _ inBinding)
  rw [← sources_statements bound, catchPieces]
  cases head.catchBinding <;> simp

/-- The branches of a nested `{#await}` block are nested, and each binding has its branch. -/
theorem branches_of_await {head : AwaitHead} {pending : List Node}
    {onThen onCatch : Option (List Node)}
    (nested : (Node.await head pending onThen onCatch).Nested source) :
    (∀ node ∈ pending, node.Nested source) ∧
      (∀ nodes ∈ onThen, ∀ node ∈ nodes, node.Nested source) ∧
      (∀ nodes ∈ onCatch, ∀ node ∈ nodes, node.Nested source) ∧
      (onThen = none → head.thenBinding = none) ∧ (onCatch = none → head.catchBinding = none) := by
  cases nested with
  | @await a last stop branches closer inner =>
    refine ⟨inner _ (.head _), fun nodes inThen => inner nodes (.tail _ ?_),
      fun nodes inCatch => inner nodes (.tail _ ?_), fun absent => ?_, fun absent => ?_⟩
    · rw [List.map_append]
      exact List.mem_append_left _ (by simpa using inThen)
    · rw [List.map_append]
      exact List.mem_append_right _ (by simpa using inCatch)
    · rw [Option.map_eq_none_iff.1 absent]
      rfl
    · rw [Option.map_eq_none_iff.1 absent]
      rfl

mutual

private theorem sources_nodePieces : ∀ node : Node, node.Nested source →
    (∀ mark ∈ node.marks, Shown source mark) →
      sources source (nodePieces source node) =
        wanted source node.marks + wantedAgain (awaitsOfNode node)
  | .element head children, nested, shown => by
    obtain ⟨ofHead, ofChildren⟩ := List.forall_mem_append.1 shown
    have nestedChildren : ∀ node ∈ children, node.Nested source := by
      cases nested with
      | leaf => exact nofun
      | element _ _ _ inner => exact inner
    have inner := sources_nodesPieces children nestedChildren ofChildren
    rw [nodePieces, sources_elementPieces ofHead, inner, Node.marks, wanted_append, awaitsOfNode,
      add_assoc]
  | .text _, _, _ => rfl
  | .comment _, _, _ => rfl
  | .mustache _ e, _, shown => by
    have marked := @sources_statements source [e] shown
    simpa [nodePieces, awaitsOfNode, Node.marks, expressionMarks] using marked
  | .tag _ kind e, _, shown => by
    have marked := @sources_tagPieces source kind e shown
    simpa [nodePieces, awaitsOfNode, Node.marks] using marked
  | .ifBlock _ condition consequent alternate, .ifBlock _ ofRest _ ofNodes, shown => by
    simp only [Node.marks, List.cons_append, List.forall_mem_cons, List.forall_mem_append] at shown
    obtain ⟨ofCondition, ofConsequent, ofAlternate⟩ := shown
    have header := sources_conditionPieces ofCondition
    have inner := sources_nodesPieces consequent ofNodes ofConsequent
    have rest := sources_alternatePieces alternate ofRest ofAlternate
    simp only [nodePieces, Node.marks, List.cons_append, awaitsOfNode, sources_append,
      sources_fresh, sources_nil, add_zero, wanted_cons, wanted_append, wantedAgain_append, header,
      inner, rest]
    abel
  | .each head body fallback, nested, shown => by
    simp only [Node.marks, List.forall_mem_append] at shown
    obtain ⟨⟨ofHead, ofBody⟩, ofFallback⟩ := shown
    have nestedParts : (∀ node ∈ body, node.Nested source) ∧
        ∀ nodes ∈ fallback, ∀ node ∈ nodes, node.Nested source := by
      cases nested with
      | each _ _ inner => exact ⟨inner, nofun⟩
      | eachElse _ _ _ inner others =>
        exact ⟨inner, fun nodes same => Option.some.inj same ▸ others⟩
    have header := sources_eachPieces ofHead
    have inner := sources_nodesPieces body nestedParts.1 ofBody
    have rest := sources_branchPieces [] fallback nestedParts.2 ofFallback
    simp only [nodePieces, Node.marks, awaitsOfNode, sources_append, sources_fresh, sources_nil,
      ite_self, zero_add, add_zero, wanted_append, wantedAgain_append, header, inner, rest]
    abel
  | .await head pending onThen onCatch, nested, shown => by
    simp only [Node.marks, List.forall_mem_append] at shown
    obtain ⟨⟨⟨ofHead, ofPending⟩, ofThen⟩, ofCatch⟩ := shown
    obtain ⟨nestedPending, nestedThen, nestedCatch, thenBound, catchBound⟩ :=
      branches_of_await nested
    have subject := spanCopied_expression (ofHead _ List.mem_cons_self)
    have inner := sources_nodesPieces pending nestedPending ofPending
    have first := sources_branchPieces (thenPieces head) onThen nestedThen ofThen
    have second := sources_branchPieces (catchPieces head) onCatch nestedCatch ofCatch
    have declaredThen : (if onThen.isSome then sources source (thenPieces head) else 0) =
        sources source (thenPieces head) := by
      cases onThen with
      | none => rw [thenPieces, thenBound rfl]; rfl
      | some nodes => rfl
    have declaredCatch : (if onCatch.isSome then sources source (catchPieces head) else 0) =
        sources source (catchPieces head) := by
      cases onCatch with
      | none => rw [catchPieces, catchBound rfl]; rfl
      | some nodes => rfl
    rw [declaredThen, sources_thenPieces ofHead] at first
    rw [declaredCatch, sources_catchPieces ofHead] at second
    have header : wanted source (expressionMarks head.parts) =
        (copiesOf source (.expression head.expression) : List Span) +
          wanted source (expressionMarks head.thenBinding.toList) +
          wanted source (expressionMarks head.catchBinding.toList) := by
      simp only [AwaitHead.parts, expressionMarks, List.map_append, List.map_cons, wanted_append,
        wanted_cons]
    simp only [nodePieces, Node.marks, List.cons_append, awaitsOfNode, sources_append,
      sources_statementOf, wanted_append, wantedAgain_cons, wantedAgain_append, header, subject,
      inner, first, second]
    abel
  | .key _ e body, .key _ _ ofNodes, shown => by
    obtain ⟨ofSubject, ofBody⟩ := List.forall_mem_cons.1 shown
    have subject := spanCopied_expression ofSubject
    have inner := sources_nodesPieces body ofNodes ofBody
    simp only [nodePieces, Node.marks, awaitsOfNode, sources_append, sources_statementOf,
      wanted_cons, subject, inner, add_assoc]

private theorem sources_nodesPieces : ∀ nodes : List Node, (∀ node ∈ nodes, node.Nested source) →
    (∀ mark ∈ marksOf nodes, Shown source mark) →
      sources source (nodesPieces source nodes) =
        wanted source (marksOf nodes) + wantedAgain (awaitsOf nodes)
  | [], _, _ => rfl
  | node :: rest, nested, shown => by
    obtain ⟨ofNode, ofRest⟩ := List.forall_mem_append.1 shown
    obtain ⟨nestedNode, nestedRest⟩ := List.forall_mem_cons.1 nested
    have first := sources_nodePieces node nestedNode ofNode
    have later := sources_nodesPieces rest nestedRest ofRest
    simp only [nodesPieces, marksOf, awaitsOf, sources_append, wanted_append, wantedAgain_append,
      first, later]
    abel

private theorem sources_branchPieces (declared : List Piece) : ∀ branch : Option (List Node),
    (∀ nodes ∈ branch, ∀ node ∈ nodes, node.Nested source) →
    (∀ mark ∈ marksOfBranch branch, Shown source mark) →
      sources source (branchPieces source declared branch) =
        (if branch.isSome then sources source declared else 0) +
          (wanted source (marksOfBranch branch) + wantedAgain (awaitsOfBranch branch))
  | none, _, _ => rfl
  | some nodes, nested, shown => by
    have inner := sources_nodesPieces nodes (nested nodes rfl) shown
    simp [branchPieces, marksOfBranch, awaitsOfBranch, inner]

private theorem sources_alternatePieces : ∀ (rest : Alternate) {mid last : Nat},
    rest.Nested source mid last → (∀ mark ∈ rest.marks, Shown source mark) →
      sources source (alternatePieces source rest) =
        wanted source rest.marks + wantedAgain (awaitsOfAlternate rest)
  | .absent, _, _, _, _ => rfl
  | .otherwise nodes, _, _, .otherwise _ ofNodes, shown => by
    have inner := sources_nodesPieces nodes ofNodes shown
    simp [alternatePieces, Alternate.marks, awaitsOfAlternate, inner]
  | .elseIf _ condition consequent alternate, _, _, .elseIf _ ofRest ofNodes, shown => by
    simp only [Alternate.marks, List.cons_append, List.forall_mem_cons, List.forall_mem_append]
      at shown
    obtain ⟨ofCondition, ofConsequent, ofAlternate⟩ := shown
    have header := sources_conditionPieces ofCondition
    have inner := sources_nodesPieces consequent ofNodes ofConsequent
    have rest := sources_alternatePieces alternate ofRest ofAlternate
    simp only [alternatePieces, Alternate.marks, List.cons_append, awaitsOfAlternate,
      sources_append, sources_fresh, sources_nil, add_zero, zero_add, wanted_cons, wanted_append,
      wantedAgain_append, header, inner, rest]
    abel

end

/-- The names of the directives stand in the source. -/
theorem nameAt_of_mem_marks {d : Directive}
    (member : .directive d ∈ marksOf (parse source).document.fragment) :
    NameAt source d (directiveName source d) :=
  nameAt_directiveName (between_of_mem_marks member)

private theorem shown_of_mem_marks {mark : Mark}
    (member : mark ∈ marksOf (parse source).document.fragment) : Shown source mark := by
  cases mark with
  | expression e =>
    have quoted : slice? source e.span.start e.span.stop = some e.text := quoted_of_mem_marks member
    rw [Shown, Span.text, quoted]
    rfl
  | directive d =>
    rw [Shown, Span.text, (nameAt_of_mem_marks member).text]
    rfl

/-- A template copies what its marks refer to, each once, and the subjects of bound `{#await}`
blocks once more. -/
theorem sources_templatePieces (accepted : (parse source).errors = []) :
    sources source (templatePieces source (parse source).document.fragment) =
      wanted source (marksOf (parse source).document.fragment) +
        wantedAgain (awaitsOf (parse source).document.fragment) := by
  have inner := sources_nodesPieces _ (nested_of_accepted accepted)
    fun _ member => shown_of_mem_marks member
  simp only [templatePieces, sources_append, sources_fresh, sources_nil, zero_add, add_zero, inner]

/-- Only copies that are not empty leave mappings. -/
theorem copied_of_mapped? {nodes : List Node} {piece : Piece} {original : Span}
    (member : piece ∈ templatePieces source nodes)
    (isMapped : piece.mapped? source = some original) :
    piece = .copied original ∧ original.text source ≠ "" := by
  have all : Allows source (fun _ => True) (marksOf nodes) := fun _ _ => trivial
  have quoted := quotes_templatePieces all piece member
  cases piece with
  | fresh text =>
    rw [Piece.mapped?_fresh] at isMapped
    cases isMapped
  | copied span =>
    rw [Piece.mapped?_copied] at isMapped
    split at isMapped
    · cases isMapped
    · rename_i filled
      cases isMapped
      exact ⟨rfl, filled⟩
  | replaced span text => exact absurd quoted id

/-- The mappings that a template adds to a draft are copies, as long as what they were copied from.
Their source spans are those of the expressions of the template that are not blank, at any depth,
each once, with the subject of an `{#await}` block once more if its value is bound, and those of the
names of directives where these are copied, each of which stands behind the first colon of its
directive. -/
theorem template_copies_each {source : String} (accepted : (parse source).errors = []) (d : Draft)
    (same : d.source = source) :
    let nodes := (parse source).document.fragment
    let draft := (templatePieces source nodes).foldl Draft.add d
    ∃ added, draft.mappings.toList = d.mappings.toList ++ added ∧
      (∀ m ∈ added, m.generated.size = m.original.size ∧ ∃ text,
        slice? draft.code m.generated.start m.generated.stop = some text ∧
          slice? source m.original.start m.original.stop = some text) ∧
      (added.map (·.original)).Perm
        ((marksOf nodes).flatMap (copiesOf source) ++ (awaitsOf nodes).flatMap copiesAgain) ∧
      ∀ directive, .directive directive ∈ marksOf nodes →
        NameAt source directive (directiveName source directive) := by
  intro nodes draft
  subst same
  refine ⟨Draft.laid d.source d.size (templatePieces d.source nodes),
    Draft.mappings_foldl_add d _, ?_, ?_, fun directive => nameAt_of_mem_marks⟩
  · intro m member
    obtain ⟨piece, inPieces, isMapped, generated⟩ := Draft.slice?_of_laid d member
    obtain ⟨isCopy, filled⟩ := copied_of_mapped? inPieces isMapped
    subst isCopy
    have original := slice?_of_text_ne filled
    refine ⟨?_, _, generated, original⟩
    rw [Span.size, Span.size, stop_of_slice? generated, stop_of_slice? original,
      Nat.add_sub_cancel_left, Nat.add_sub_cancel_left]
    rfl
  · rw [Draft.originals_laid]
    apply Multiset.coe_eq_coe.1
    rw [← Multiset.coe_add]
    exact sources_templatePieces accepted

/-- A directive with a function, one that binds a property of a slot, and a promise whose value is
bound: the promise is copied twice. -/
theorem template_copies_each_await :
    let source := "<p use:act let:x>\x7b#await p then v\x7d\x7bv\x7d\x7b/await\x7d</p>"
    let pieces := templatePieces source (parse source).document.fragment
    (parse source).errors = [] ∧
      ∃ added, (pieces.foldl Draft.add (.start source)).mappings.toList = added ∧
        (added.map (·.original)).Perm
          [⟨7, 10⟩, ⟨15, 16⟩, ⟨25, 26⟩, ⟨32, 33⟩, ⟨35, 36⟩, ⟨25, 26⟩] := by
  intro source pieces
  have accepted : (parse source).errors = [] := by decide +kernel
  obtain ⟨added, mappings, _, copies, _⟩ := template_copies_each accepted (.start _) rfl
  refine ⟨accepted, added, mappings, ?_⟩
  exact copies.trans (.of_eq (by decide +kernel))

end TypedSvelte.Component
