import TypedSvelte.Component.Template
import TypedSvelte.Proofs.Markup.ExpressionRoles
import TypedSvelte.Proofs.Position.Layout

/-!
# Empty parentheses

Most expressions of a template are copied between parentheses. Nothing is left between these exactly
where the expression is blank (`blank_expressions`), which the subject of a block and the value of an
attribute can be, though a mustache and all that is told from a larger text cannot.
-/
namespace TypedSvelte

/-- An expression in the role is copied between parentheses. -/
def Markup.Role.isParenthesised : Markup.Role → Bool
  | .slotProp | .spread | .tag .const | .context | .index | .result => false
  | _ => true

namespace Component

open Markup

/-- What is copied with a parenthesis right before it and one right behind it. -/
def parenthesised : List Piece → List Span
  | .fresh before :: .copied span :: .fresh behind :: rest =>
    (if before.toList.getLast? = some '(' ∧ behind.toList.head? = some ')' then [span] else [])
      ++ parenthesised (.fresh behind :: rest)
  | _ :: rest => parenthesised rest
  | [] => []

/-- Each copy has a text before it and one behind it. -/
inductive Enclosed : List Piece → Prop
  | nil : Enclosed []
  | fresh {text : String} {rest : List Piece} (others : Enclosed rest) :
      Enclosed (.fresh text :: rest)
  | copied {before behind : String} {span : Span} {rest : List Piece}
      (others : Enclosed (.fresh behind :: rest)) :
      Enclosed (.fresh before :: .copied span :: .fresh behind :: rest)

variable {first second pieces : List Piece}

/-- A text that is not before a copy plays no part. -/
theorem Enclosed.parenthesised_cons (enclosed : Enclosed pieces) (text : String) :
    parenthesised (.fresh text :: pieces) = parenthesised pieces := by
  cases enclosed <;> rfl

theorem Enclosed.append (enclosed : Enclosed first) (others : Enclosed second) :
    Enclosed (first ++ second) := by
  induction enclosed with
  | nil => exact others
  | fresh _ ih => exact .fresh ih
  | copied _ ih => exact .copied ih

private theorem parenthesised_append (enclosed : Enclosed first) (others : Enclosed second) :
    parenthesised (first ++ second) = parenthesised first ++ parenthesised second := by
  induction enclosed with
  | nil => rfl
  | fresh inner ih =>
    rw [List.cons_append, (inner.append others).parenthesised_cons, inner.parenthesised_cons, ih]
  | copied inner ih =>
    simp only [List.cons_append, parenthesised] at ih ⊢
    rw [ih, List.append_assoc]

/-- The places of the expressions whose role puts them in parentheses. -/
def castSpans (casts : List Cast) : List Span :=
  (casts.filter (·.1.isParenthesised)).map (·.2.span)

private theorem castSpans_append (first second : List Cast) :
    castSpans (first ++ second) = castSpans first ++ castSpans second := by
  rw [castSpans, List.filter_append, List.map_append]
  rfl

private theorem castSpans_mono {casts others : List Cast} (inside : casts ⊆ others) :
    castSpans casts ⊆ castSpans others :=
  List.map_subset _ (List.filter_subset _ inside)

private theorem castSpans_castAs (role : Role) (es : List Expression) :
    castSpans (castAs role es) = if role.isParenthesised then es.map (·.span) else [] := by
  induction es with
  | nil => exact (ite_self []).symm
  | cons e rest ih =>
    simp only [castSpans, castAs] at ih ⊢
    cases inside : role.isParenthesised <;> simp [inside, ih]

/-- The empty copies in parentheses are those of expressions whose role puts them there. -/
structure Parenthesises (pieces : List Piece) (casts : List Cast) : Prop where
  enclosed : Enclosed pieces
  mem_iff : ∀ s : Span, s.start = s.stop → (s ∈ parenthesised pieces ↔ s ∈ castSpans casts)

namespace Parenthesises

variable {casts others : List Cast} {before behind text : String} {role : Role} {e : Expression}
  {span : Span}

theorem nil : Parenthesises [] [] := ⟨.nil, fun _ _ => Iff.rfl⟩

theorem fresh (text : String) : Parenthesises [.fresh text] [] := ⟨.fresh .nil, fun _ _ => Iff.rfl⟩

theorem append (here : Parenthesises first casts) (there : Parenthesises second others) :
    Parenthesises (first ++ second) (casts ++ others) where
  enclosed := here.enclosed.append there.enclosed
  mem_iff s empty := by
    rw [parenthesised_append here.enclosed there.enclosed, castSpans_append, List.mem_append,
      List.mem_append, here.mem_iff s empty, there.mem_iff s empty]

theorem congr (here : Parenthesises pieces casts)
    (same : ∀ s, s ∈ castSpans casts ↔ s ∈ castSpans others) : Parenthesises pieces others :=
  ⟨here.enclosed, fun s empty => (here.mem_iff s empty).trans (same s)⟩

/-- A copy between parentheses. -/
theorem copied (opens : before.toList.getLast? = some '(') (closes : behind.toList.head? = some ')')
    (inside : role.isParenthesised = true) :
    Parenthesises [.fresh before, .copied e.span, .fresh behind] [(role, e)] := by
  refine ⟨.copied (.fresh .nil), fun s _ => ?_⟩
  simp [parenthesised, castSpans, opens, closes, inside]

/-- A copy between other texts. -/
theorem apart (opens : before.toList.getLast? ≠ some '(') :
    Parenthesises [.fresh before, .copied span, .fresh behind] [] := by
  refine ⟨.copied (.fresh .nil), fun s _ => ?_⟩
  simp [parenthesised, castSpans, opens]

/-- The argument of a call behind a copy between other texts. -/
theorem call {opening : String} (opens : opening.toList.getLast? ≠ some '(')
    (calls : before.toList.getLast? = some '(') (closes : behind.toList.head? = some ')')
    (inside : role.isParenthesised = true) :
    Parenthesises [.fresh opening, .copied span, .fresh before, .copied e.span, .fresh behind]
      [(role, e)] := by
  refine ⟨.copied (.copied (.fresh .nil)), fun s _ => ?_⟩
  simp [parenthesised, castSpans, opens, calls, closes, inside]

end Parenthesises

section

variable {source : String}

private theorem parenthesises_statementOf {role : Role} {e : Expression}
    (inside : role.isParenthesised = true) : Parenthesises (statementOf e.span) [(role, e)] :=
  .copied rfl rfl inside

/-- A name that is copied is not empty. -/
theorem parenthesises_nameStatement (d : Directive) :
    Parenthesises (nameStatement source d) [] := by
  unfold nameStatement
  split
  · exact .nil
  · rename_i filled
    refine ⟨.copied (.fresh .nil), fun s empty => iff_of_false (fun inside => filled ?_) nofun⟩
    cases List.mem_singleton.1 inside
    change (directiveName source d).start = (directiveName source d).start + d.name.utf8ByteSize
      at empty
    rw [String.isEmpty_iff, ← String.utf8ByteSize_eq_zero_iff]
    omega

private theorem parenthesises_valueStatement (d : Directive) :
    Parenthesises (valueStatement d) (castAs .value d.value.toList) := by
  unfold valueStatement
  cases d.value with
  | none => exact .nil
  | some e => exact parenthesises_statementOf rfl

/-- The name of a directive comes before its value or in its place. -/
theorem parenthesises_namedValue (source : String) (d : Directive) :
    Parenthesises (nameStatement source d ++ valueStatement d) (castAs .value d.value.toList) ∧
    Parenthesises (if d.value.isSome then valueStatement d else nameStatement source d)
      (castAs .value d.value.toList) := by
  refine ⟨(parenthesises_nameStatement d).append (parenthesises_valueStatement d), ?_⟩
  split
  · exact parenthesises_valueStatement d
  · rename_i absent
    rw [Option.not_isSome_iff_eq_none.1 absent]
    exact parenthesises_nameStatement d

private theorem parenthesises_directivePieces (d : Directive) :
    Parenthesises (directivePieces source d) (Attribute.directive d).roles := by
  obtain ⟨behindName, orName⟩ := parenthesises_namedValue source d
  obtain ⟨span, kind, name, modifiers, value⟩ := d
  cases kind with
  | slotProp =>
    refine Parenthesises.nil.congr fun s => ?_
    rw [Attribute.roles, castSpans_castAs]
    exact Iff.rfl
  | on => exact parenthesises_valueStatement _
  | bind | classToggle | style => exact orName
  | action | transition | intro | outro | animate => exact behindName

private theorem parenthesises_value (value : List ValuePart) :
    Parenthesises
      (value.flatMap fun
        | .expression e => statementOf e.span
        | .text _ => [])
      (castAs .value (value.filterMap fun
        | .expression e => some e
        | .text _ => none)) := by
  induction value with
  | nil => exact .nil
  | cons part rest ih =>
    cases part with
    | text raw => exact ih
    | expression e =>
      have here : Parenthesises (statementOf e.span) [(.value, e)] := parenthesises_statementOf rfl
      exact here.append ih

private theorem parenthesises_attributePieces (a : Attribute) :
    Parenthesises (attributePieces source a) a.roles := by
  cases a with
  | plain a => exact parenthesises_value a.value
  | shorthand e => exact parenthesises_statementOf rfl
  | spread e => exact (Parenthesises.apart (by decide)).congr fun s => Iff.rfl
  | directive d => exact parenthesises_directivePieces d

private theorem parenthesises_attributes (attributes : List Attribute) :
    Parenthesises (attributes.flatMap (attributePieces source))
      (attributes.flatMap Attribute.roles) := by
  induction attributes with
  | nil => exact .nil
  | cons a rest ih => exact (parenthesises_attributePieces a).append ih

private theorem parenthesises_slotBindings (source : String) (bindings : List Directive) :
    Parenthesises (bindings.flatMap (slotBindingPieces source)) [] := by
  induction bindings with
  | nil => exact .nil
  | cons d rest ih => exact (Parenthesises.apart (by decide)).append ih

private theorem parenthesises_elementPieces {head : ElementHead} {children : List Piece} {casts : List Cast}
    (inner : Parenthesises children casts) :
    Parenthesises (elementPieces source head children)
      (head.attributes.flatMap Attribute.roles ++ casts) := by
  refine (parenthesises_attributes _).append ?_
  split
  · exact inner
  · have declared := parenthesises_slotBindings source (slotBindings head.attributes)
    have whole := (((Parenthesises.fresh "\x7b\n").append declared).append inner).append
      (.fresh "\x7d\n")
    rw [List.append_nil] at whole
    exact whole

private theorem parenthesises_tagPieces (kind : TagKind) (e : Option Expression) :
    Parenthesises (tagPieces kind e) (castAs (.tag kind) e.toList) := by
  cases e with
  | none => exact .nil
  | some e =>
    cases kind with
    | html | debug => exact parenthesises_statementOf rfl
    | const => exact (Parenthesises.apart (by decide)).congr fun s => Iff.rfl

private theorem parenthesises_eachPieces (head : EachHead) :
    Parenthesises (eachPieces head) head.header.roles := by
  obtain ⟨span, e, context, index, key⟩ := head
  have items : Parenthesises
      [.fresh " of __sveltets_each(", .copied e.span, .fresh ")) \x7b\n"] [(.items, e)] :=
    .copied rfl rfl rfl
  refine Parenthesises.append (.append (?_ : Parenthesises _
    ((.items, e) :: castAs .context context.toList)) ?_) ?_
  · cases context with
    | none =>
      exact (Parenthesises.fresh "for (const ").append
        ((Parenthesises.fresh "__sveltets_item").append items)
    | some context =>
      have loop : Parenthesises
          [.fresh "for (const ", .copied context.span, .fresh " of __sveltets_each(",
            .copied e.span, .fresh ")) \x7b\n"] [(.items, e)] := .call (by decide) rfl rfl rfl
      exact loop.congr fun s => Iff.rfl
  · cases index with
    | none => exact .nil
    | some index => exact (Parenthesises.apart (by decide)).congr fun s => Iff.rfl
  · cases key with
    | none => exact .nil
    | some key => exact parenthesises_statementOf rfl

/-- The promise may be copied a second time. -/
theorem parenthesises_thenPieces (head : AwaitHead) :
    ∃ casts ⊆ [(.promise, head.expression)], Parenthesises (thenPieces head) casts := by
  unfold thenPieces
  split
  · exact ⟨_, List.Subset.refl _, .call (by decide) rfl rfl rfl⟩
  · exact ⟨[], List.nil_subset _, .nil⟩

private theorem parenthesises_catchPieces (head : AwaitHead) : Parenthesises (catchPieces head) [] := by
  unfold catchPieces
  split
  · exact .apart (by decide)
  · exact .nil

mutual

private theorem parenthesises_nodePieces : ∀ node : Node,
    Parenthesises (nodePieces source node) node.roles
  | .element head children => parenthesises_elementPieces (parenthesises_nodesPieces children)
  | .text _ | .comment _ => .nil
  | .mustache _ e => parenthesises_statementOf rfl
  | .tag _ kind e => parenthesises_tagPieces kind e
  | .ifBlock _ condition consequent alternate => by
    have opened : Parenthesises (conditionPieces condition) [(.condition, condition)] :=
      .copied rfl rfl rfl
    have whole := (((opened.append (parenthesises_nodesPieces consequent)).append
      (.fresh "\x7d")).append (parenthesises_alternatePieces alternate)).append (.fresh "\n")
    simpa [nodePieces, Node.roles] using whole
  | .each head body fallback => by
    obtain ⟨extra, inside, branch⟩ := parenthesises_branchPieces .nil fallback
    rw [List.subset_nil.1 inside] at branch
    have whole := (((parenthesises_eachPieces head).append (parenthesises_nodesPieces body)).append
      (.fresh "\x7d\n")).append branch
    simpa [nodePieces, Node.roles] using whole
  | .await head pending onThen onCatch => by
    obtain ⟨casts, again, declared⟩ := parenthesises_thenPieces head
    obtain ⟨extra, inThen, succeeds⟩ := parenthesises_branchPieces declared onThen
    obtain ⟨other, inCatch, fails⟩ := parenthesises_branchPieces (parenthesises_catchPieces head) onCatch
    rw [List.subset_nil.1 inCatch] at fails
    have subject : Parenthesises (statementOf head.expression.span) [(.promise, head.expression)] :=
      parenthesises_statementOf rfl
    refine (((subject.append (parenthesises_nodesPieces pending)).append succeeds).append
      fails).congr fun s => ?_
    have repeated : s ∈ castSpans extra → s ∈ castSpans [(.promise, head.expression)] :=
      fun member => castSpans_mono (List.Subset.trans inThen again) member
    have bindings (results : List Expression) :
        castSpans ((.promise, head.expression) :: castAs .result results) =
          castSpans [(.promise, head.expression)] := by
      rw [← List.singleton_append, castSpans_append, castSpans_castAs]
      exact List.append_nil _
    rw [Node.roles]
    simp only [castSpans_append, bindings, List.mem_append]
    have nothing : s ∉ castSpans [] := List.not_mem_nil
    tauto
  | .key _ e body =>
    have subject : Parenthesises (statementOf e.span) [(.keyed, e)] := parenthesises_statementOf rfl
    subject.append (parenthesises_nodesPieces body)

private theorem parenthesises_nodesPieces : ∀ nodes : List Node,
    Parenthesises (nodesPieces source nodes) (rolesOf nodes)
  | [] => .nil
  | node :: rest => (parenthesises_nodePieces node).append (parenthesises_nodesPieces rest)

private theorem parenthesises_branchPieces {declared : List Piece} {casts : List Cast}
    (inner : Parenthesises declared casts) : ∀ branch : Option (List Node),
    ∃ extra ⊆ casts,
      Parenthesises (branchPieces source declared branch) (extra ++ rolesOfBranch branch)
  | none => ⟨[], List.nil_subset _, .nil⟩
  | some nodes => by
    have whole := (((Parenthesises.fresh "\x7b\n").append inner).append
      (parenthesises_nodesPieces nodes)).append (.fresh "\x7d\n")
    rw [List.append_nil] at whole
    exact ⟨casts, List.Subset.refl _, whole⟩

private theorem parenthesises_alternatePieces : ∀ rest : Alternate,
    Parenthesises (alternatePieces source rest) rest.roles
  | .absent => .nil
  | .otherwise nodes => by
    have whole := ((Parenthesises.fresh " else \x7b\n").append (parenthesises_nodesPieces nodes)).append
      (.fresh "\x7d")
    rw [List.append_nil] at whole
    exact whole
  | .elseIf _ condition consequent alternate => by
    have opened : Parenthesises (conditionPieces condition) [(.elseIf, condition)] :=
      .copied rfl rfl rfl
    have whole := ((((Parenthesises.fresh " else ").append opened).append
      (parenthesises_nodesPieces consequent)).append (.fresh "\x7d")).append
      (parenthesises_alternatePieces alternate)
    simpa [alternatePieces, Alternate.roles] using whole

end

private theorem parenthesises_templatePieces (source : String) (nodes : List Node) :
    Parenthesises (templatePieces source nodes) (rolesOf nodes) := by
  have inner : Parenthesises (nodesPieces source nodes) (rolesOf nodes) :=
    parenthesises_nodesPieces nodes
  have whole := ((Parenthesises.fresh "(() => \x7b\n").append inner).append (.fresh "\x7d);\n")
  rw [List.append_nil] at whole
  exact whole

end

/-- The span of an expression of a document is empty where the expression is blank. -/
theorem blank_iff_of_mem_roles {source : String} {cast : Cast}
    (member : cast ∈ rolesOf (parse source).document.fragment) :
    cast.2.text = "" ↔ cast.2.span.start = cast.2.span.stop := by
  have covers : cast.2.span.stop = cast.2.span.start + cast.2.text.utf8ByteSize :=
    (between_of_mem_marks ((mem_marks_iff_nodes _).2 ⟨cast.1, member⟩)).covers
  rw [← String.utf8ByteSize_eq_zero_iff]
  omega

/-- Every expression of a template has a role, and the role says whether it can be blank: what is
told from a larger text, a mustache and the expression of a tag cannot, and what stands between an
opening and its closing brace is blank where only white space does. The template as code has empty
parentheses exactly if an expression that it copies between parentheses is blank. -/
theorem blank_expressions (source : String) :
    let nodes := (parse source).document.fragment
    (∀ e, .expression e ∈ marksOf nodes ↔ ∃ role, (role, e) ∈ rolesOf nodes) ∧
    (∀ cast ∈ rolesOf nodes, Holds source cast) ∧
    ((∃ s ∈ parenthesised (templatePieces source nodes), s.start = s.stop) ↔
      ∃ cast ∈ rolesOf nodes, cast.1.isParenthesised = true ∧ cast.2.text = "") := by
  refine ⟨fun e => mem_marks_iff_nodes _, fun cast => holds_of_mem_roles, ?_⟩
  have emitted := parenthesises_templatePieces source (parse source).document.fragment
  constructor
  · rintro ⟨s, copied, empty⟩
    obtain ⟨cast, member, rfl⟩ := List.mem_map.1 ((emitted.mem_iff s empty).1 copied)
    obtain ⟨inRole, inside⟩ := List.mem_filter.1 member
    exact ⟨cast, inRole, inside, (blank_iff_of_mem_roles inRole).2 empty⟩
  · rintro ⟨cast, inRole, inside, blank⟩
    have empty := (blank_iff_of_mem_roles inRole).1 blank
    have member : cast.2.span ∈ castSpans _ :=
      List.mem_map_of_mem (List.mem_filter.2 ⟨inRole, inside⟩)
    exact ⟨cast.2.span, (emitted.mem_iff _ empty).2 member, empty⟩

/-- A block without a subject is read without an error and emitted with empty parentheses, as are a
shorthand and a value of nothing but white space, whereas a blank mustache is an error. -/
theorem blank_accepted :
    let condition := parse "\x7b#if \x7dx\x7b/if\x7d"
    let loop := parse "\x7b#each \x7dx\x7b/each\x7d"
    let element := parse "<p \x7b\x7d a=\x7b \x7d />"
    condition.errors = [] ∧
      rolesOf condition.document.fragment = [(.condition, ⟨⟨5, 5⟩, ""⟩)] ∧
      templatePieces "\x7b#if \x7dx\x7b/if\x7d" condition.document.fragment =
        [.fresh "(() => \x7b\n", .fresh "if (", .copied ⟨5, 5⟩, .fresh ") \x7b\n", .fresh "\x7d",
          .fresh "\n", .fresh "\x7d);\n"] ∧
      loop.errors = [] ∧ rolesOf loop.document.fragment = [(.items, ⟨⟨7, 7⟩, ""⟩)] ∧
      element.errors = [] ∧
      rolesOf element.document.fragment =
        [(.value, ⟨⟨4, 4⟩, ""⟩), (.value, ⟨⟨10, 10⟩, ""⟩)] ∧
      (parse "\x7b \x7d").errors = [⟨.emptyExpression, ⟨0, 3⟩⟩] := by
  decide +kernel

end Component

end TypedSvelte
