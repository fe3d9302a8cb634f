import TypedSvelte.Proofs.Markup.MarkPlaces
import TypedSvelte.Proofs.Markup.PlacedDocuments

/-!
# Marks of placed documents

The marks of a document are expressions, which are the text of the source at their spans, and
directives, which were read from the source.
-/
namespace TypedSvelte.Markup

variable {source : String} {parent : Span}

/-- An expression is the text of the source at its span. -/
def Mark.Quoted (source : String) : Mark → Prop
  | .expression e => slice? source e.span.start e.span.stop = some e.text
  | .directive _ => True

private theorem quoted_parts {es : List Expression} (placed : ∀ e ∈ es, e.Placed source parent) :
    ∀ mark ∈ expressionMarks es, mark.Quoted source :=
  List.forall_mem_map.2 fun e member => (placed e member).slice

private theorem quoted_attribute {a : Attribute} (placed : a.Placed source parent) :
    ∀ mark ∈ a.marks, mark.Quoted source := by
  cases placed with
  | @plain a span value =>
    have placed : ∀ e ∈ (Attribute.plain a).expressions, e.Placed source a.span := by
      intro e member
      obtain ⟨part, inValue, isExpression⟩ := List.mem_filterMap.1 member
      cases part with
      | text t => cases isExpression
      | expression other =>
        cases isExpression
        exact value _ inValue
    exact quoted_parts placed
  | shorthand e | spread e => exact quoted_parts (List.forall_mem_singleton.2 e)
  | @directive d span value =>
    have placed : ∀ e ∈ d.value.toList, e.Placed source d.span :=
      fun e member => value e (Option.mem_toList.1 member)
    exact List.forall_mem_cons.2 ⟨trivial, quoted_parts placed⟩

private theorem quoted_attributes {as : List Attribute} (placed : ∀ a ∈ as, a.Placed source parent) :
    ∀ mark ∈ as.flatMap Attribute.marks, mark.Quoted source := by
  intro mark member
  obtain ⟨a, inTag, inAttribute⟩ := List.mem_flatMap.1 member
  exact quoted_attribute (placed a inTag) mark inAttribute

mutual

private theorem quoted_node (node : Node) {parent : Span} (placed : node.Placed source parent) :
    ∀ mark ∈ node.marks, mark.Quoted source := by
  cases node with
  | element head children =>
    cases placed with
    | element span attributes inner =>
      exact List.forall_mem_append.2 ⟨quoted_attributes attributes, quoted_nodes children inner⟩
  | text t | comment c => exact nofun
  | mustache span e =>
    cases placed with
    | mustache span inner => exact List.forall_mem_singleton.2 inner.slice
  | tag span kind e =>
    cases placed with
    | tag span inner => exact quoted_parts fun e member => inner e (Option.mem_toList.1 member)
  | ifBlock span condition consequent alternate =>
    cases placed with
    | ifBlock span head inner other =>
      have first : ∀ mark ∈ Mark.expression condition :: marksOf consequent, mark.Quoted source :=
        List.forall_mem_cons.2 ⟨head.slice, quoted_nodes consequent inner⟩
      exact List.forall_mem_append.2 ⟨first, quoted_alternate alternate other⟩
  | each head body fallback =>
    cases placed with
    | each span header inner others =>
      exact List.forall_mem_append.2 ⟨List.forall_mem_append.2 ⟨quoted_parts header,
        quoted_nodes body inner⟩, quoted_branch fallback others⟩
  | await head pending onThen onCatch =>
    cases placed with
    | await span header inner thens catches =>
      exact List.forall_mem_append.2 ⟨List.forall_mem_append.2 ⟨List.forall_mem_append.2
        ⟨quoted_parts header, quoted_nodes pending inner⟩, quoted_branch onThen thens⟩,
        quoted_branch onCatch catches⟩
  | key span e body =>
    cases placed with
    | key span head inner =>
      exact List.forall_mem_cons.2 ⟨head.slice, quoted_nodes body inner⟩

private theorem quoted_nodes (nodes : List Node) {parent : Span}
    (placed : ∀ node ∈ nodes, node.Placed source parent) :
    ∀ mark ∈ marksOf nodes, mark.Quoted source := by
  cases nodes with
  | nil => exact nofun
  | cons node rest =>
    refine List.forall_mem_append.2 ⟨quoted_node node (placed node (.head _)), ?_⟩
    exact quoted_nodes rest fun other member => placed other (.tail _ member)

private theorem quoted_branch (branch : Option (List Node)) {parent : Span}
    (placed : ∀ nodes ∈ branch, ∀ node ∈ nodes, node.Placed source parent) :
    ∀ mark ∈ marksOfBranch branch, mark.Quoted source := by
  cases branch with
  | none => exact nofun
  | some nodes => exact quoted_nodes nodes (placed nodes rfl)

private theorem quoted_alternate (rest : Alternate) {parent : Span} (placed : rest.Placed source parent) :
    ∀ mark ∈ rest.marks, mark.Quoted source := by
  cases rest with
  | absent => exact nofun
  | otherwise nodes =>
    cases placed with
    | otherwise inner => exact quoted_nodes nodes inner
  | elseIf span condition consequent alternate =>
    cases placed with
    | elseIf span head inner other =>
      have first : ∀ mark ∈ Mark.expression condition :: marksOf consequent, mark.Quoted source :=
        List.forall_mem_cons.2 ⟨head.slice, quoted_nodes consequent inner⟩
      exact List.forall_mem_append.2 ⟨first, quoted_alternate alternate other⟩

end

/-- The marks of the template of a component. -/
theorem quoted_of_mem_marks {mark : Mark}
    (member : mark ∈ marksOf (parse source).document.fragment) : mark.Quoted source :=
  quoted_nodes _ ((Reading.placed_start source).finish.document (Reading.step_finish _)).fragment
    mark member

end TypedSvelte.Markup
