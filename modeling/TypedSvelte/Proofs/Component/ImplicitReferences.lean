import TypedSvelte.Proofs.Component.AttributeExpressions
import TypedSvelte.Proofs.Component.TemplatePlaces

/-!
# References by the name of a directive

A directive that is written without a value may stand for the variable of its name. Such a reference
is emitted exactly where no value of one pair of braces stands behind the name
(`implicit_reference_iff`). That takes in values of a text, and of an expression beside a text: there
the reference is to a variable that nothing in the source names (`reference_invented`).
-/
namespace TypedSvelte.Markup

/-- Directives of the kind stand for the variable of their name if they have no value. -/
def DirectiveKind.refersToName : DirectiveKind → Bool
  | .bind | .classToggle | .style => true
  | _ => false

private theorem bracedExpressions_pair {quote : Char} {rest : List Char} (offset : Nat)
    (brace : quote ≠ '{') (pair : isPairBefore quote rest = true) : ∃ raw,
      bracedExpressions (· == quote) offset rest = [Expression.ofText (offset + 1) raw] := by
  unfold isPairBefore at pair
  split at pair
  · rename_i inner
    obtain ⟨n, found, closes⟩ := (Option.any_eq_true _ _).1 pair
    obtain ⟨others, behind⟩ : ∃ others, inner.drop (n + 1) = quote :: others := by
      rw [← List.head?_eq_some_iff, List.head?_drop]
      exact eq_of_beq closes
    refine ⟨inner.take n, ?_⟩
    rw [bracedExpressions, if_neg (by simpa using brace.symm), if_pos (beq_self_eq_true _), found]
    dsimp only
    rw [behind, bracedExpressions, if_pos (beq_self_eq_true _)]
  · cases pair

namespace Scan

variable {source : String} {s : Scan} {d : Directive}

/-- A value of one pair of braces has one expression, which stands inside of the value. -/
theorem exists_soleExpression (accepted : s.attributeValue.2.errors = [])
    (pair : isOnePair s.rest = true) :
    ∃ e, valueExpressions s.pos s.rest = [e] ∧ s.pos < e.span.start := by
  have inside (offset : Nat) (raw : List Char) :
      offset ≤ (Expression.ofText offset raw).span.start := Nat.le_add_right _ _
  unfold attributeValue at accepted
  unfold isOnePair at pair
  split at pair
  · rename_i rest ahead
    obtain ⟨raw, same⟩ := bracedExpressions_pair (s.pos + 1) (by decide) pair
    rw [ahead]
    exact ⟨_, same, Nat.lt_of_succ_lt (inside _ _)⟩
  · rename_i rest ahead
    obtain ⟨raw, same⟩ := bracedExpressions_pair (s.pos + 1) (by decide) pair
    rw [ahead]
    exact ⟨_, same, Nat.lt_of_succ_lt (inside _ _)⟩
  · rename_i rest ahead
    simp only [ahead] at accepted
    obtain ⟨n, found, _⟩ := exists_expression ahead accepted
    refine ⟨Expression.ofText (s.pos + 1) (rest.take n), ?_, inside _ _⟩
    rw [ahead, valueExpressions, found]
    rfl
  · cases pair

/-- Where an equals sign comes behind the name that is ahead, an attribute is assigned a value. -/
theorem exists_assignment {n : Nat} (here : (ofSource source).Reaches s)
    (name : (s.rest.take n).all (!endsAttributeName ·) = true)
    (sign : (s.skip n).skipBlank.startsWith "=" = true) :
    ∃ text : Assignment source, text.start = s.pos := by
  obtain ⟨passed, whole, pos⟩ := here
  change source.toList = passed ++ s.rest at whole
  have behind : (s.rest.drop n).dropWhile isBlank = '=' :: (s.skip n).skipBlank.rest.drop 1 :=
    (drop_length_takeWhile _ _).symm.trans (rest_of_startsWith sign)
  let text : Assignment source :=
    { before := passed
      name := s.rest.take n
      gap := (s.rest.drop n).takeWhile isBlank
      space := ((s.skip n).skipBlank.rest.drop 1).takeWhile isBlank
      value := ((s.skip n).skipBlank.rest.drop 1).dropWhile isBlank
      whole := by
        rw [List.takeWhile_append_dropWhile, ← behind, List.takeWhile_append_dropWhile,
          List.take_append_drop]
        exact whole
      named := name
      gapBlank := List.all_takeWhile
      spaceBlank := List.all_takeWhile
      begins := endsRun_dropWhile _ _ }
  refine ⟨text, ?_⟩
  rw [pos]
  exact (Nat.zero_add _).symm

private theorem value_namedAttribute_nil {span : Span} {name : String}
    (named : namedAttribute span name [] = .directive d) : d.value = none := by
  unfold namedAttribute at named
  dsimp only at named
  split at named
  · cases named
    rfl
  · cases named

/-- A directive with a value was read where an equals sign stands behind its name. -/
theorem exists_assignment_of_value (here : (ofSource source).Reaches s)
    (read : s.readAttribute.1 = some (.directive d)) (valued : d.value ≠ none) :
    ∃ text : Assignment source, text.start = d.span.start := by
  unfold readAttribute at read
  split at read
  · obtain ⟨e, _, braced⟩ := Option.bind_eq_some_iff.1 read
    cases start?_bracedAttribute braced
  · split at read
    · cases read
    · rename_i n count
      have named : namedAttribute ⟨s.pos, (s.skip (n + 1)).optionalValue.2.pos⟩
          (String.ofList (s.rest.take (n + 1))) (s.skip (n + 1)).optionalValue.1 = .directive d :=
        Option.some.inj read
      have start : some d.span.start = some s.pos := by
        rw [← start?_namedAttribute ⟨s.pos, _⟩, named]
        rfl
      have run : s.rest.take (n + 1) = s.rest.takeWhile (fun c => !endsAttributeName c) := by
        change s.rest.take n.succ = _
        rw [← count]
        exact (List.prefix_iff_eq_take.1 (List.takeWhile_prefix _)).symm
      by_cases sign : (s.skip (n + 1)).skipBlank.startsWith "=" = true
      · rw [Option.some.inj start]
        exact exists_assignment here (run ▸ List.all_takeWhile) sign
      · rw [optionalValue, if_neg sign] at named
        exact absurd (value_namedAttribute_nil named) valued

end Scan

end TypedSvelte.Markup

namespace TypedSvelte.Component

open Markup

variable {source : String} {head : ElementHead} {d : Directive}

private theorem infix_append_left {α : Type} {part xs : List α} (ys : List α) (within : part <:+: xs) :
    part <:+: xs ++ ys :=
  within.trans (List.prefix_append xs ys).isInfix

private theorem infix_append_right {α : Type} {part ys : List α} (xs : List α) (within : part <:+: ys) :
    part <:+: xs ++ ys :=
  within.trans (List.suffix_append xs ys).isInfix

mutual

private theorem attributes_infix_node : ∀ node : Node, head ∈ node.elements →
    head.attributes.flatMap (attributePieces source) <:+: nodePieces source node
  | .element first children, element => by
    rcases List.mem_cons.1 element with rfl | inside
    · exact (List.prefix_append _ _).isInfix
    · have within := attributes_infix_nodes children inside
      apply infix_append_right
      split
      · exact within
      · exact infix_append_left _ (infix_append_right _ within)
  | .text _, element | .comment _, element | .mustache _ _, element | .tag _ _ _, element =>
    nomatch element
  | .ifBlock _ condition consequent alternate, element => by
    apply infix_append_left
    rcases List.mem_append.1 element with inside | other
    · have within := attributes_infix_nodes consequent inside
      exact infix_append_left _ (infix_append_left _ (infix_append_right _ within))
    · exact infix_append_right _ (attributes_infix_alternate alternate other)
  | .each head body fallback, element => by
    rcases List.mem_append.1 element with inside | other
    · have within := attributes_infix_nodes body inside
      exact infix_append_left _ (infix_append_left _ (infix_append_right _ within))
    · exact infix_append_right _ (attributes_infix_branch _ fallback other)
  | .await head pending onThen onCatch, element => by
    rcases List.mem_append.1 element with before | caught
    · apply infix_append_left
      rcases List.mem_append.1 before with inside | bound
      · exact infix_append_left _ (infix_append_right _ (attributes_infix_nodes pending inside))
      · exact infix_append_right _ (attributes_infix_branch _ onThen bound)
    · exact infix_append_right _ (attributes_infix_branch _ onCatch caught)
  | .key _ e body, element => infix_append_right _ (attributes_infix_nodes body element)

/-- The statements of the attributes of an element stand among those of the nodes it belongs to. -/
theorem attributes_infix_nodes : ∀ nodes : List Node, head ∈ elementsOf nodes →
    head.attributes.flatMap (attributePieces source) <:+: nodesPieces source nodes
  | node :: rest, element => by
    rcases List.mem_append.1 element with first | later
    · exact infix_append_left _ (attributes_infix_node node first)
    · exact infix_append_right _ (attributes_infix_nodes rest later)

private theorem attributes_infix_branch : ∀ (declared : List Piece) (branch : Option (List Node)),
    head ∈ elementsOfBranch branch →
    head.attributes.flatMap (attributePieces source) <:+: branchPieces source declared branch
  | _, some nodes, element =>
    infix_append_left _ (infix_append_right _ (attributes_infix_nodes nodes element))

private theorem attributes_infix_alternate : ∀ rest : Alternate, head ∈ rest.elements →
    head.attributes.flatMap (attributePieces source) <:+: alternatePieces source rest
  | .otherwise nodes, element =>
    infix_append_left _ (infix_append_right _ (attributes_infix_nodes nodes element))
  | .elseIf _ condition consequent alternate, element => by
    rcases List.mem_append.1 element with inside | other
    · have within := attributes_infix_nodes consequent inside
      exact infix_append_left _ (infix_append_left _ (infix_append_right _ within))
    · exact infix_append_right _ (attributes_infix_alternate alternate other)

end

/-- The statements of an attribute stand in the template, one behind the other. -/
theorem attributePieces_within {nodes : List Node} {a : Attribute}
    (element : head ∈ elementsOf nodes) (member : a ∈ head.attributes) :
    attributePieces source a <:+: templatePieces source nodes := by
  obtain ⟨before, behind, split⟩ := List.append_of_mem member
  have own : attributePieces source a <:+: head.attributes.flatMap (attributePieces source) := by
    rw [split, List.flatMap_append, List.flatMap_cons]
    exact infix_append_right _ (List.prefix_append _ _).isInfix
  have within := own.trans (attributes_infix_nodes nodes element)
  exact infix_append_left _ (infix_append_right _ within)

/-- The name of a directive stands before its value. -/
theorem directiveName_before_value {t : Scan} (between : d.Between (Scan.ofSource source) t)
    (text : Assignment source) (place : text.start = d.span.start) (colon : ':' ∈ text.name) :
    (directiveName source d).start ≤ byteSize text.front := by
  obtain ⟨u, v, kind, rest, toU, _, span, ahead, pos, absent, _⟩ := between
  have start : u.pos = text.start := by rw [place, span]
  have within : byteSize kind + 1 ≤ byteSize text.name := by
    have same := ahead.symm.trans (text.rest_eq toU start)
    rw [List.append_assoc] at same
    rcases List.append_eq_append_iff.1 same with ⟨more, longer, behind⟩ | ⟨more, longer, _⟩
    · cases more with
      | nil =>
        rw [longer, List.append_nil] at colon
        exact absurd colon absent
      | cons c others =>
        cases (List.cons.inj behind).1
        rw [longer, byteSize_append]
        exact Nat.add_le_add_left (Nat.le_add_right 1 _) _
    · rw [longer] at absent
      exact absurd (List.mem_append_left _ colon) absent
  rw [directiveName_eq (text_directive toU span ahead pos) absent, span]
  rw [Assignment.front, byteSize_append, byteSize_append]
  change u.pos = byteSize text.before at start
  change u.pos + byteSize kind + 1 ≤ _
  omega

private theorem directivePieces_of_refersToName (refers : d.kind.refersToName = true) :
    directivePieces source d =
      if d.value.isSome then valueStatement d else nameStatement source d := by
  unfold directivePieces
  revert refers
  cases d.kind <;> intro refers <;> first | rfl | cases refers

/-- A directive whose value is one pair of braces has the expression in these as its value, which
stands behind its name. -/
theorem value_of_onePair {s : Scan} (here : (Scan.ofSource source).Reaches s)
    (read : s.readAttribute.1 = some (.directive d)) (accepted : s.readAttribute.2.errors = [])
    (text : Assignment source) (place : text.start = d.span.start)
    (pair : isOnePair text.value = true) : ∃ e, text.expressions = [e] ∧ d.value = some e ∧
      (directiveName source d).start < e.span.start := by
  have same : (Attribute.directive d).start? = some text.start := congrArg some place.symm
  obtain ⟨_, t, toValue, value, clean, named⟩ := text.exists_read here read accepted same
  rw [← value] at pair
  obtain ⟨e, sole, behind⟩ := Scan.exists_soleExpression clean pair
  rw [text.pos_eq toValue value] at sole behind
  rw [value] at sole pair
  have kept := text.expressions_of_read here read accepted same
  have own : d.value.toList = [e] := (kept.trans (if_pos pair)).trans sole
  have itself : Mark.directive d ∈ (Attribute.directive d).marks := List.mem_cons_self
  have colon : ':' ∈ text.name := by
    rw [named] at itself
    rcases Scan.marks_namedAttribute itself with ⟨_, other, _⟩ | ⟨_, kind, rest, _, _, name, _⟩
    · cases other
    · rw [String.toList_ofList] at name
      rw [name]
      exact List.mem_append_right _ List.mem_cons_self
  have between := (Scan.between_readAttribute read List.mem_cons_self).mono here (.refl _)
  have front := directiveName_before_value between text place colon
  exact ⟨e, sole, Option.toList_eq_singleton_iff.1 own, Nat.lt_of_le_of_lt front behind⟩

/-- Where a directive that may stand for a variable has one pair of braces as its value, the template
refers to what the braces hold. Everywhere else it refers to the name of the directive, be there a
value of another form or none at all. -/
theorem implicit_reference_iff (accepted : (parse source).errors = [])
    (element : head ∈ elementsOf (parse source).document.fragment)
    (member : .directive d ∈ head.attributes) (refers : d.kind.refersToName = true) :
    directivePieces source d <:+: templatePieces source (parse source).document.fragment ∧
      (directivePieces source d = nameStatement source d ↔
        ∀ text : Assignment source, text.start = d.span.start → isOnePair text.value = false) ∧
      ∀ text : Assignment source, text.start = d.span.start → isOnePair text.value = true →
        ∃ e, text.expressions = [e] ∧ directivePieces source d = statementOf e.span := by
  obtain ⟨s, here, read, clean⟩ := exists_readAttribute accepted element member
  have valued {e : Expression} (value : d.value = some e) :
      directivePieces source d = statementOf e.span := by
    rw [directivePieces_of_refersToName refers, valueStatement, value]
    rfl
  refine ⟨attributePieces_within element member, ⟨fun byName text place => ?_, fun other => ?_⟩,
    fun text place pair => ?_⟩
  · -- One pair of braces stands behind the name, so that its statement copies another place.
    rw [← Bool.not_eq_true]
    intro pair
    obtain ⟨e, _, value, behind⟩ := value_of_onePair here read clean text place pair
    rw [valued value, nameStatement] at byName
    split at byName
    · cases byName
    · have same : e.span = directiveName source d := by
        simpa [statementOf] using byName
      rw [same] at behind
      exact Nat.lt_irrefl _ behind
  · have absent : d.value = none := by
      by_contra value
      obtain ⟨text, place⟩ := Scan.exists_assignment_of_value here read value
      have kept := text.expressions_of_read here read clean (congrArg some place.symm)
      have nothing : d.value.toList = [] :=
        kept.trans (if_neg (by rw [Attribute.keeps, other text place]; exact Bool.false_ne_true))
      exact value (Option.toList_eq_nil_iff.1 nothing)
    rw [directivePieces_of_refersToName refers, absent]
    rfl
  · obtain ⟨e, sole, value, _⟩ := value_of_onePair here read clean text place pair
    exact ⟨e, sole, valued value⟩

/-- A class that an expression in braces toggles. -/
theorem implicit_reference_iff_braces :
    directivePieces "<p class:a=\x7bb\x7d></p>"
      ⟨⟨3, 14⟩, .classToggle, "a", [], some ⟨⟨12, 13⟩, "b"⟩⟩ = statementOf ⟨12, 13⟩ := by
  let active : Directive := ⟨⟨3, 14⟩, .classToggle, "a", [], some ⟨⟨12, 13⟩, "b"⟩⟩
  let text : Assignment "<p class:a=\x7bb\x7d></p>" :=
    ⟨"<p ".toList, "class:a".toList, [], [], "\x7bb\x7d></p>".toList, by decide +kernel, rfl, rfl,
      rfl, endsRun_cons (by decide)⟩
  have element : ⟨⟨0, 19⟩, "p", .html, [.directive active], false⟩ ∈
      elementsOf (parse "<p class:a=\x7bb\x7d></p>").document.fragment := by decide +kernel
  have ⟨_, _, paired⟩ := implicit_reference_iff (by decide +kernel) element
    (List.mem_singleton_self _) rfl
  obtain ⟨e, sole, pieces⟩ := paired text rfl rfl
  have own : text.expressions = [⟨⟨12, 13⟩, "b"⟩] := by decide +kernel
  rw [own] at sole
  cases sole
  exact pieces

/-- A directive with an equals sign and a text behind its name is emitted as a reference to a variable
of its name. -/
theorem reference_invented :
    let read := parse "<p style:color=\"red\"></p>"
    let color : Directive := ⟨⟨3, 20⟩, .style, "color", [], none⟩
    read.errors = [] ∧
      (elementsOf read.document.fragment).map (·.attributes) = [[.directive color]] ∧
      (∃ text : Assignment "<p style:color=\"red\"></p>",
        text.start = color.span.start ∧ text.value = "\"red\"></p>".toList) ∧
      templatePieces "<p style:color=\"red\"></p>" read.document.fragment =
        [.fresh "(() => \x7b\n"] ++ statementOf ⟨9, 14⟩ ++ [.fresh "\x7d);\n"] ∧
      slice? "<p style:color=\"red\"></p>" 9 14 = some "color" := by
  refine ⟨by decide +kernel, by decide +kernel, ?_, by decide +kernel, by decide +kernel⟩
  exact ⟨⟨"<p ".toList, "style:color".toList, [], [], "\"red\"></p>".toList, by decide +kernel, rfl,
    rfl, rfl, endsRun_cons (by decide)⟩, rfl, rfl⟩

end TypedSvelte.Component
