import TypedSvelte.Component.Transpile
import TypedSvelte.Proofs.Markup.Marks

/-!
# What a template copies

The statements of a template consist of text of their own and of copies of what its marks refer to
(`quotes_templatePieces`). Nothing in them takes the place of source text.
-/
namespace TypedSvelte.Component

open Markup

/-- Every piece is text of its own or the copy of an allowed span. -/
def Quotes (allowed : Span → Prop) (pieces : List Piece) : Prop :=
  ∀ piece ∈ pieces, match piece with
    | .fresh _ => True
    | .copied span => allowed span
    | .replaced _ _ => False

variable {allowed : Span → Prop}

@[simp]
theorem quotes_nil : Quotes allowed [] := nofun

@[simp]
theorem quotes_fresh (text : String) (pieces : List Piece) :
    Quotes allowed (.fresh text :: pieces) ↔ Quotes allowed pieces := by
  simp [Quotes]

@[simp]
theorem quotes_copied (span : Span) (pieces : List Piece) :
    Quotes allowed (.copied span :: pieces) ↔ allowed span ∧ Quotes allowed pieces := by
  simp [Quotes]

@[simp]
theorem quotes_append (first second : List Piece) :
    Quotes allowed (first ++ second) ↔ Quotes allowed first ∧ Quotes allowed second :=
  List.forall_mem_append

theorem quotes_flatMap {α : Type} {f : α → List Piece} {xs : List α}
    (each : ∀ x ∈ xs, Quotes allowed (f x)) : Quotes allowed (xs.flatMap f) := by
  intro piece member
  obtain ⟨x, inside, quoted⟩ := List.mem_flatMap.1 member
  exact each x inside piece quoted

theorem Quotes.not_replaced {pieces : List Piece} (quotes : Quotes allowed pieces) (span : Span)
    (text : String) : .replaced span text ∉ pieces :=
  fun member => quotes _ member

@[simp]
theorem quotes_statementOf (span : Span) : Quotes allowed (statementOf span) ↔ allowed span := by
  simp [statementOf]

/-- The bytes of the source that a mark refers to: an expression, or the name of a directive. -/
def place (source : String) : Mark → Span
  | .expression e => e.span
  | .directive d => directiveName source d

def Allows (source : String) (allowed : Span → Prop) (marks : List Mark) : Prop :=
  ∀ mark ∈ marks, allowed (place source mark)

section

variable {source : String}

@[simp]
theorem allows_nil : Allows source allowed [] := nofun

@[simp]
theorem allows_cons (mark : Mark) (marks : List Mark) :
    Allows source allowed (mark :: marks) ↔
      allowed (place source mark) ∧ Allows source allowed marks :=
  List.forall_mem_cons

@[simp]
theorem allows_append (first second : List Mark) :
    Allows source allowed (first ++ second) ↔
      Allows source allowed first ∧ Allows source allowed second :=
  List.forall_mem_append

@[simp]
theorem allows_expressionMarks (es : List Expression) :
    Allows source allowed (expressionMarks es) ↔ ∀ e ∈ es, allowed e.span :=
  List.forall_mem_map

private theorem quotes_nameStatement {d : Directive} (name : allowed (directiveName source d)) :
    Quotes allowed (nameStatement source d) := by
  unfold nameStatement
  split
  · exact quotes_nil
  · exact (quotes_statementOf _).2 name

private theorem quotes_valueStatement {d : Directive} (value : ∀ e ∈ d.value.toList, allowed e.span) :
    Quotes allowed (valueStatement d) := by
  unfold valueStatement
  split
  · rename_i e here
    exact (quotes_statementOf _).2 (value e (Option.mem_toList.2 here))
  · exact quotes_nil

private theorem quotes_directivePieces {d : Directive} (name : allowed (directiveName source d))
    (value : ∀ e ∈ d.value.toList, allowed e.span) : Quotes allowed (directivePieces source d) := by
  have ofName := quotes_nameStatement name
  have ofValue := quotes_valueStatement value
  have either : Quotes allowed
      (if d.value.isSome then valueStatement d else nameStatement source d) := by
    split
    · exact ofValue
    · exact ofName
  have both : Quotes allowed (nameStatement source d ++ valueStatement d) :=
    (quotes_append _ _).2 ⟨ofName, ofValue⟩
  unfold directivePieces
  cases d.kind with
  | slotProp => exact quotes_nil
  | on => exact ofValue
  | bind | classToggle | style => exact either
  | action | transition | intro | outro | animate => exact both

private theorem allows_directive (d : Directive) :
    Allows source allowed (Attribute.directive d).marks ↔
      allowed (directiveName source d) ∧ ∀ e ∈ d.value.toList, allowed e.span := by
  simp only [Attribute.marks, Attribute.expressions, allows_append, allows_cons, allows_nil,
    and_true, allows_expressionMarks, place]

private theorem quotes_attributePieces {a : Attribute} (allows : Allows source allowed a.marks) :
    Quotes allowed (attributePieces source a) := by
  cases a with
  | plain a =>
    simp only [Attribute.marks, Attribute.expressions, List.nil_append, allows_expressionMarks]
      at allows
    apply quotes_flatMap
    intro part inside
    cases part with
    | expression e =>
      exact (quotes_statementOf _).2 (allows e (List.mem_filterMap.2 ⟨_, inside, rfl⟩))
    | text t => exact quotes_nil
  | shorthand e =>
    exact (quotes_statementOf _).2 (allows _ List.mem_cons_self)
  | spread e =>
    have here : allowed e.span := allows _ List.mem_cons_self
    simp [attributePieces, here]
  | directive d =>
    obtain ⟨name, value⟩ := (allows_directive d).1 allows
    exact quotes_directivePieces name value

private theorem quotes_slotBindingPieces {d : Directive} (name : allowed (directiveName source d))
    (value : ∀ e ∈ d.value.toList, allowed e.span) :
    Quotes allowed (slotBindingPieces source d) := by
  unfold slotBindingPieces
  cases here : d.value with
  | none => simp [name]
  | some e => simp [value e (Option.mem_toList.2 here)]

private theorem quotes_elementPieces {head : ElementHead} {children : List Piece}
    (allows : Allows source allowed (head.attributes.flatMap Attribute.marks))
    (inside : Quotes allowed children) : Quotes allowed (elementPieces source head children) := by
  have each (a : Attribute) (member : a ∈ head.attributes) : Allows source allowed a.marks :=
    fun mark inMarks => allows mark (List.mem_flatMap.2 ⟨a, member, inMarks⟩)
  have attributes : Quotes allowed (head.attributes.flatMap (attributePieces source)) :=
    quotes_flatMap fun a member => quotes_attributePieces (each a member)
  have bindings : Quotes allowed
      ((slotBindings head.attributes).flatMap (slotBindingPieces source)) := by
    apply quotes_flatMap
    intro d member
    obtain ⟨a, inAttributes, isBinding⟩ := List.mem_filterMap.1 member
    cases a with
    | directive other =>
      obtain ⟨name, value⟩ := (allows_directive other).1 (each _ inAttributes)
      dsimp only at isBinding
      split at isBinding
      · cases Option.some.inj isBinding
        exact quotes_slotBindingPieces name value
      · cases isBinding
    | _ => cases isBinding
  unfold elementPieces
  split
  · exact (quotes_append _ _).2 ⟨attributes, inside⟩
  · simp [attributes, bindings, inside]

private theorem quotes_tagPieces {kind : TagKind} {expression : Option Expression}
    (allows : ∀ e ∈ expression.toList, allowed e.span) :
    Quotes allowed (tagPieces kind expression) := by
  cases expression with
  | none => exact quotes_nil
  | some e =>
    have here := allows e (List.mem_singleton_self e)
    cases kind <;> simp [tagPieces, here]

private theorem quotes_conditionPieces {condition : Expression} (here : allowed condition.span) :
    Quotes allowed (conditionPieces condition) := by
  simp [conditionPieces, here]

private theorem quotes_eachPieces {head : EachHead} (allows : ∀ e ∈ head.parts, allowed e.span) :
    Quotes allowed (eachPieces head) := by
  obtain ⟨span, subject, context, index, key⟩ := head
  unfold eachPieces
  cases context <;> cases index <;> cases key <;> simp_all [EachHead.parts]

private theorem quotes_thenPieces {head : AwaitHead} (allows : ∀ e ∈ head.parts, allowed e.span) :
    Quotes allowed (thenPieces head) := by
  obtain ⟨span, subject, thenBinding, catchBinding⟩ := head
  cases thenBinding <;> simp_all [thenPieces, AwaitHead.parts]

private theorem quotes_catchPieces {head : AwaitHead} (allows : ∀ e ∈ head.parts, allowed e.span) :
    Quotes allowed (catchPieces head) := by
  obtain ⟨span, subject, thenBinding, catchBinding⟩ := head
  cases catchBinding <;> simp_all [catchPieces, AwaitHead.parts]

mutual

private theorem quotes_nodePieces :
    ∀ node, Allows source allowed node.marks → Quotes allowed (nodePieces source node)
  | .element head children, allows => by
    obtain ⟨ofHead, ofChildren⟩ := (allows_append _ _).1 allows
    exact quotes_elementPieces ofHead (quotes_nodesPieces children ofChildren)
  | .text _, _ => quotes_nil
  | .comment _, _ => quotes_nil
  | .mustache _ e, allows => (quotes_statementOf e.span).2 (allows _ List.mem_cons_self)
  | .tag _ kind e, allows => quotes_tagPieces ((allows_expressionMarks _).1 allows)
  | .ifBlock _ condition consequent alternate, allows => by
    simp only [Node.marks, List.cons_append, allows_cons, allows_append] at allows
    obtain ⟨here, ofConsequent, ofAlternate⟩ := allows
    have header := quotes_conditionPieces here
    have inner := quotes_nodesPieces consequent ofConsequent
    have rest := quotes_alternatePieces alternate ofAlternate
    simp [nodePieces, header, inner, rest]
  | .each head body fallback, allows => by
    simp only [Node.marks, allows_append, allows_expressionMarks] at allows
    obtain ⟨⟨ofHead, ofBody⟩, ofFallback⟩ := allows
    have header := quotes_eachPieces ofHead
    have inner := quotes_nodesPieces body ofBody
    have rest := quotes_branchPieces quotes_nil fallback ofFallback
    simp [nodePieces, header, inner, rest]
  | .await head pending onThen onCatch, allows => by
    simp only [Node.marks, allows_append, allows_expressionMarks] at allows
    obtain ⟨⟨⟨ofHead, ofPending⟩, ofThen⟩, ofCatch⟩ := allows
    have subject := ofHead head.expression List.mem_cons_self
    have inner := quotes_nodesPieces pending ofPending
    have first := quotes_branchPieces (quotes_thenPieces ofHead) onThen ofThen
    have second := quotes_branchPieces (quotes_catchPieces ofHead) onCatch ofCatch
    simp [nodePieces, subject, inner, first, second]
  | .key _ e body, allows => by
    obtain ⟨here, ofBody⟩ := (allows_cons _ _).1 allows
    have subject : allowed e.span := here
    have inner := quotes_nodesPieces body ofBody
    simp [nodePieces, subject, inner]

private theorem quotes_nodesPieces :
    ∀ nodes, Allows source allowed (marksOf nodes) → Quotes allowed (nodesPieces source nodes)
  | [], _ => quotes_nil
  | node :: rest, allows => by
    obtain ⟨ofNode, ofRest⟩ := (allows_append _ _).1 allows
    exact (quotes_append _ _).2 ⟨quotes_nodePieces node ofNode, quotes_nodesPieces rest ofRest⟩

private theorem quotes_branchPieces {declared : List Piece} (before : Quotes allowed declared) :
    ∀ branch, Allows source allowed (marksOfBranch branch) →
      Quotes allowed (branchPieces source declared branch)
  | none, _ => quotes_nil
  | some nodes, allows => by
    have inner := quotes_nodesPieces nodes allows
    simp [branchPieces, before, inner]

private theorem quotes_alternatePieces :
    ∀ alternate, Allows source allowed alternate.marks →
      Quotes allowed (alternatePieces source alternate)
  | .absent, _ => quotes_nil
  | .otherwise nodes, allows => by
    have inner := quotes_nodesPieces nodes allows
    simp [alternatePieces, inner]
  | .elseIf _ condition consequent alternate, allows => by
    simp only [Alternate.marks, List.cons_append, allows_cons, allows_append] at allows
    obtain ⟨here, ofConsequent, ofAlternate⟩ := allows
    have header := quotes_conditionPieces here
    have inner := quotes_nodesPieces consequent ofConsequent
    have rest := quotes_alternatePieces alternate ofAlternate
    simp [alternatePieces, header, inner, rest]

end

/-- A template copies only what its marks refer to. -/
theorem quotes_templatePieces {nodes : List Node}
    (allows : Allows source allowed (marksOf nodes)) :
    Quotes allowed (templatePieces source nodes) := by
  have inner := quotes_nodesPieces nodes allows
  simp [templatePieces, inner]

end

end TypedSvelte.Component
