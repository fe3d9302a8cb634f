import TypedSvelte.Proofs.Component.PropsMentions
import TypedSvelte.Proofs.Markup.AttributeOrigins
import TypedSvelte.Proofs.Markup.AttributeValues

/-!
# Expressions of attributes in the template

Which expressions in the value of an attribute reach the code. All that an attribute is read with are
copied (`copied_of_attribute`), so an expression is lost only where the attribute is read without it:
in a value without quotes, and in a value of a directive with anything beside one pair of braces
(`value_expressions_copied`).
-/
namespace TypedSvelte.Component

open Markup

variable {source : String} {head : ElementHead} {e : Expression}

mutual

private theorem mem_expressions_node : ∀ node : Node, head ∈ node.elements →
    e ∈ head.attributes.flatMap Attribute.expressions → e ∈ node.expressions
  | .element first children, element, member => by
    rcases List.mem_cons.1 element with rfl | inside
    · exact List.mem_append_left _ member
    · exact List.mem_append_right _ (mem_expressions_nodes children inside member)
  | .text _, element, _ | .comment _, element, _ | .mustache _ _, element, _
  | .tag _ _ _, element, _ => nomatch element
  | .ifBlock _ condition consequent alternate, element, member => by
    rcases List.mem_append.1 element with inside | other
    · exact List.mem_append_left _ (.tail _ (mem_expressions_nodes consequent inside member))
    · exact List.mem_append_right _ (mem_expressions_alternate alternate other member)
  | .each _ body fallback, element, member => by
    rcases List.mem_append.1 element with inside | other
    · exact List.mem_append_left _ (List.mem_append_right _ (mem_expressions_nodes body inside member))
    · exact List.mem_append_right _ (mem_expressions_branch fallback other member)
  | .await _ pending onThen onCatch, element, member => by
    rcases List.mem_append.1 element with before | caught
    · rcases List.mem_append.1 before with inside | bound
      · exact List.mem_append_left _ (List.mem_append_left _
          (.tail _ (mem_expressions_nodes pending inside member)))
      · exact List.mem_append_left _ (List.mem_append_right _
          (mem_expressions_branch onThen bound member))
    · exact List.mem_append_right _ (mem_expressions_branch onCatch caught member)
  | .key _ _ body, element, member => .tail _ (mem_expressions_nodes body element member)

/-- The expressions of the attributes of an element are among those of the nodes it stands in. -/
theorem mem_expressions_nodes : ∀ nodes : List Node, head ∈ elementsOf nodes →
    e ∈ head.attributes.flatMap Attribute.expressions → e ∈ expressionsOf nodes
  | node :: rest, element, member => by
    rcases List.mem_append.1 element with first | later
    · exact List.mem_append_left _ (mem_expressions_node node first member)
    · exact List.mem_append_right _ (mem_expressions_nodes rest later member)

private theorem mem_expressions_branch : ∀ branch : Option (List Node),
    head ∈ elementsOfBranch branch →
    e ∈ head.attributes.flatMap Attribute.expressions → e ∈ expressionsOfBranch branch
  | some nodes, element, member => mem_expressions_nodes nodes element member

private theorem mem_expressions_alternate : ∀ rest : Alternate, head ∈ rest.elements →
    e ∈ head.attributes.flatMap Attribute.expressions → e ∈ rest.expressions
  | .otherwise nodes, element, member => mem_expressions_nodes nodes element member
  | .elseIf _ condition consequent alternate, element, member => by
    rcases List.mem_append.1 element with inside | other
    · exact List.mem_append_left _ (.tail _ (mem_expressions_nodes consequent inside member))
    · exact List.mem_append_right _ (mem_expressions_alternate alternate other member)

end

/-- What an attribute is read with is copied, unless it is blank. -/
theorem copied_of_attribute {a : Attribute} (accepted : (parse source).errors = [])
    (element : head ∈ elementsOf (parse source).document.fragment) (member : a ∈ head.attributes)
    (own : e ∈ a.expressions) (filled : e.text ≠ "") : Copied source e := by
  have inTree := mem_expressions_nodes _ element (List.mem_flatMap.2 ⟨a, member, own⟩)
  exact copied_of_marked accepted ((mem_marks_nodes _).2 (.inl inTree)) filled

/-- The expressions that are written in the value of an attribute are those of the attribute, and are
copied unless they are blank, exactly if there are none or the attribute keeps such a value. Of any
other value it has none. -/
theorem value_expressions_copied {a : Attribute} (accepted : (parse source).errors = [])
    (element : head ∈ elementsOf (parse source).document.fragment) (member : a ∈ head.attributes)
    (text : Assignment source) (place : a.start? = some text.start) :
    a.expressions = (if a.keeps text.value then text.expressions else []) ∧
      ((∀ e ∈ text.expressions, e ∈ a.expressions ∧ (e.text ≠ "" → Copied source e)) ↔
        text.expressions = [] ∨ a.keeps text.value = true) := by
  obtain ⟨s, here, read, clean⟩ := exists_readAttribute accepted element member
  have own := text.expressions_of_read here read clean place
  refine ⟨own, fun kept => ?_, fun whole => ?_⟩
  · rw [or_iff_not_imp_right]
    intro other
    rw [if_neg other] at own
    refine List.eq_nil_iff_forall_not_mem.2 fun e written => ?_
    have inNothing := (kept e written).1
    rw [own] at inNothing
    cases inNothing
  · have same : a.expressions = text.expressions := by
      rcases whole with nothing | keeps
      · rw [own, nothing, ite_self]
      · rw [own, if_pos keeps]
    rw [same]
    intro e written
    exact ⟨written, copied_of_attribute accepted element member (same ▸ written)⟩

/-- An expression in a quoted value with a text behind it. -/
theorem value_expressions_copied_title :
    Copied "<a title=\"\x7bb\x7d!\"></a>" ⟨⟨11, 12⟩, "b"⟩ := by
  let title : Attribute := .plain ⟨⟨3, 15⟩, "title",
    [.expression ⟨⟨11, 12⟩, "b"⟩, .text ⟨⟨13, 14⟩, "!"⟩]⟩
  let text : Assignment "<a title=\"\x7bb\x7d!\"></a>" :=
    ⟨"<a ".toList, "title".toList, [], [], "\"\x7bb\x7d!\"></a>".toList, by decide +kernel,
      rfl, rfl, rfl, endsRun_cons (by decide)⟩
  have element : ⟨⟨0, 20⟩, "a", .html, [title], false⟩ ∈
      elementsOf (parse "<a title=\"\x7bb\x7d!\"></a>").document.fragment := by decide +kernel
  have ⟨_, kept⟩ := value_expressions_copied (by decide +kernel) element
    (List.mem_singleton_self title) text rfl
  exact (kept.2 (.inr rfl) ⟨⟨11, 12⟩, "b"⟩ (by decide +kernel)).2 (by decide)

/-- The value of a directive with a text behind its expression. -/
def mixedValue : Assignment "<p style:width=\"\x7bw\x7dpx\"></p>" :=
  ⟨"<p ".toList, "style:width".toList, [], [], "\"\x7bw\x7dpx\"></p>".toList, by decide +kernel,
    rfl, rfl, rfl, endsRun_cons (by decide)⟩

def unquotedValue : Assignment "<a href=/item/\x7bid\x7d></a>" :=
  ⟨"<a ".toList, "href".toList, [], [], "/item/\x7bid\x7d></a>".toList, by decide +kernel,
    rfl, rfl, rfl, endsRun_cons (by decide)⟩

/-- The expressions of both values are lost: nothing in the tree stands for them, and the template
copies the name of the directive in the place of its value. -/
theorem value_expressions_lost :
    let mixed := parse "<p style:width=\"\x7bw\x7dpx\"></p>"
    let unquoted := parse "<a href=/item/\x7bid\x7d></a>"
    mixed.errors = [] ∧ unquoted.errors = [] ∧
      ((elementsOf mixed.document.fragment).flatMap (·.attributes)).map (·.start?) =
        [some mixedValue.start] ∧
      ((elementsOf unquoted.document.fragment).flatMap (·.attributes)).map (·.start?) =
        [some unquotedValue.start] ∧
      mixedValue.expressions = [⟨⟨17, 18⟩, "w"⟩] ∧
      unquotedValue.expressions = [⟨⟨15, 17⟩, "id"⟩] ∧
      expressionsOf mixed.document.fragment = [] ∧ expressionsOf unquoted.document.fragment = [] ∧
      templatePieces "<p style:width=\"\x7bw\x7dpx\"></p>" mixed.document.fragment =
        [.fresh "(() => \x7b\n", .fresh "(", .copied ⟨9, 14⟩, .fresh ");\n", .fresh "\x7d);\n"] ∧
      templatePieces "<a href=/item/\x7bid\x7d></a>" unquoted.document.fragment =
        [.fresh "(() => \x7b\n", .fresh "\x7d);\n"] := by
  decide +kernel

end TypedSvelte.Component
