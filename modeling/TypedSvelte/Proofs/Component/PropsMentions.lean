import TypedSvelte.Proofs.Component.Acceptance
import TypedSvelte.Proofs.Component.TemplateCopies
import TypedSvelte.Proofs.Script.Identifiers

/-!
# Names that a component mentions

A component refers to a name by an identifier in one of its scripts that is spelled so, or in an
expression that its template copies (`RefersTo`). The walk that looks for a name visits the
expressions of the template without the bindings of `{#await}` branches, which are copied as well,
and it takes a template literal for one token, although its substitutions `${…}` are expressions.
These are the only references that it misses (`refers_to_props_iff`).
-/
namespace TypedSvelte.Markup

variable {name : String} {text : List Char}

/-- The texts of the substitutions of a template literal, what follows its opening backquote being
given. A backslash takes the next character with it. -/
def substitutions : List Char → List (List Char)
  | [] | [_] => []
  | c :: d :: rest =>
    if c == '\\' then substitutions rest
    else if c == '`' then []
    else if c == '$' && d == '{' then
      let length := (closingBrace? rest).getD rest.length
      rest.take length :: substitutions (rest.drop length)
    else substitutions (d :: rest)
  termination_by text => text.length
  decreasing_by all_goals simp only [List.length_drop, List.length_cons]; omega

/-- An identifier of a text, or of a substitution in one of its template literals at any depth, is
the name. Strings and comments mention nothing. -/
inductive Mentions (name : String) : List Char → Prop
  | plain {text : List Char} (member : name ∈ identifiers text) : Mentions name text
  | substituted {text inner : List Char} {t : Token} (member : t ∈ tokens text)
      (isTemplate : t.kind = .template) (inside : inner ∈ substitutions t.chars.tail)
      (mentioned : Mentions name inner) : Mentions name text

/-- A substitution in a template literal of the text mentions the name. -/
def MentionsInside (name : String) (text : List Char) : Prop :=
  ∃ t ∈ tokens text, t.kind = .template ∧ ∃ inner ∈ substitutions t.chars.tail, Mentions name inner

private theorem mentions_iff : Mentions name text ↔ name ∈ identifiers text ∨ MentionsInside name text := by
  constructor
  · intro mentioned
    cases mentioned with
    | plain member => exact .inl member
    | substituted member isTemplate inside mentioned =>
      exact .inr ⟨_, member, isTemplate, _, inside, mentioned⟩
  · rintro (member | ⟨t, member, isTemplate, inner, inside, mentioned⟩)
    · exact .plain member
    · exact .substituted member isTemplate inside mentioned

/-- A blank text mentions nothing. -/
theorem Mentions.ne_nil (mentioned : Mentions name text) : text ≠ [] := by
  rintro rfl
  have blank : tokens [] = [] := by rw [tokens, tokensFrom]
  rcases mentions_iff.1 mentioned with member | ⟨t, member, _⟩
  · rw [identifiers, blank] at member
    cases member
  · rw [blank] at member
    cases member

end TypedSvelte.Markup

namespace TypedSvelte.Component

open Markup

variable {source name : String} {e : Expression}

/-- The bindings of the branches of `{#await}` blocks. -/
def awaitBindings (awaits : List AwaitHead) : List Expression :=
  awaits.flatMap fun head => head.thenBinding.toList ++ head.catchBinding.toList

private theorem mem_awaitBindings_append {first second : List AwaitHead} :
    e ∈ awaitBindings (first ++ second) ↔ e ∈ awaitBindings first ∨ e ∈ awaitBindings second := by
  rw [awaitBindings, List.flatMap_append, List.mem_append]
  rfl

theorem mem_expressionMarks {es : List Expression} :
    .expression e ∈ expressionMarks es ↔ e ∈ es := by
  simp [expressionMarks]

private theorem mem_marks_attribute {a : Attribute} : .expression e ∈ a.marks ↔ e ∈ a.expressions := by
  cases a <;> simp [Attribute.marks, mem_expressionMarks]

theorem mem_marks_attributes {attributes : List Attribute} :
    .expression e ∈ attributes.flatMap Attribute.marks ↔
      e ∈ attributes.flatMap Attribute.expressions := by
  simp only [List.mem_flatMap, mem_marks_attribute]

mutual

private theorem mem_marks_node : ∀ node : Node, .expression e ∈ node.marks ↔
    e ∈ node.expressions ∨ e ∈ awaitBindings (awaitsOfNode node)
  | .element head children => by
    simp only [Node.marks, Node.expressions, awaitsOfNode, List.mem_append, mem_marks_attributes,
      mem_marks_nodes children, or_assoc]
  | .text _ | .comment _ => by simp [Node.marks, Node.expressions, awaitsOfNode, awaitBindings]
  | .mustache _ other => by simp [Node.marks, Node.expressions, awaitsOfNode, awaitBindings]
  | .tag _ _ other => by
    simp [Node.marks, Node.expressions, awaitsOfNode, awaitBindings, expressionMarks]
  | .ifBlock _ condition consequent alternate => by
    simp only [Node.marks, Node.expressions, awaitsOfNode, List.mem_append, List.cons_append,
      List.mem_cons, Mark.expression.injEq, mem_awaitBindings_append, mem_marks_nodes consequent,
      mem_marks_alternate alternate]
    tauto
  | .each head body fallback => by
    simp only [Node.marks, Node.expressions, EachHead.parts, awaitsOfNode, List.mem_append,
      mem_expressionMarks, mem_awaitBindings_append, mem_marks_nodes body,
      mem_marks_branch fallback]
    tauto
  | .await head pending onThen onCatch => by
    have bindings : awaitBindings (awaitsOfNode (.await head pending onThen onCatch)) =
        head.thenBinding.toList ++ head.catchBinding.toList ++ awaitBindings
          (awaitsOf pending ++ awaitsOfBranch onThen ++ awaitsOfBranch onCatch) := rfl
    simp only [bindings, Node.marks, Node.expressions, AwaitHead.parts, List.mem_append,
      List.cons_append, List.mem_cons, mem_expressionMarks, mem_awaitBindings_append,
      mem_marks_nodes pending, mem_marks_branch onThen, mem_marks_branch onCatch]
    tauto
  | .key _ other body => by
    simp only [Node.marks, Node.expressions, awaitsOfNode, List.mem_cons, Mark.expression.injEq,
      mem_marks_nodes body, or_assoc]

/-- The template refers to the expressions that are visited and to the bindings of `{#await}`
branches, which are not. -/
theorem mem_marks_nodes : ∀ nodes : List Node, .expression e ∈ marksOf nodes ↔
    e ∈ expressionsOf nodes ∨ e ∈ awaitBindings (awaitsOf nodes)
  | [] => by simp [marksOf, expressionsOf, awaitsOf, awaitBindings]
  | node :: rest => by
    simp only [marksOf, expressionsOf, awaitsOf, List.mem_append, mem_awaitBindings_append,
      mem_marks_node node, mem_marks_nodes rest]
    tauto

private theorem mem_marks_branch : ∀ branch : Option (List Node), .expression e ∈ marksOfBranch branch ↔
    e ∈ expressionsOfBranch branch ∨ e ∈ awaitBindings (awaitsOfBranch branch)
  | none => by simp [marksOfBranch, expressionsOfBranch, awaitsOfBranch, awaitBindings]
  | some nodes => mem_marks_nodes nodes

private theorem mem_marks_alternate : ∀ rest : Alternate, .expression e ∈ rest.marks ↔
    e ∈ rest.expressions ∨ e ∈ awaitBindings (awaitsOfAlternate rest)
  | .absent => by simp [Alternate.marks, Alternate.expressions, awaitsOfAlternate, awaitBindings]
  | .otherwise nodes => mem_marks_nodes nodes
  | .elseIf _ condition consequent alternate => by
    simp only [Alternate.marks, Alternate.expressions, awaitsOfAlternate, List.mem_append,
      List.cons_append, List.mem_cons, Mark.expression.injEq, mem_awaitBindings_append,
      mem_marks_nodes consequent, mem_marks_alternate alternate]
    tauto

end

/-- The template copies the expression. -/
structure Copied (source : String) (e : Expression) : Prop where
  marked : .expression e ∈ marksOf (parse source).document.fragment
  copied : .copied e.span ∈ templatePieces source (parse source).document.fragment

/-- The script has an identifier at a place where the name is spelled. -/
def ScriptBlock.Names (block : ScriptBlock) (name : String) : Prop :=
  ∃ i ∈ block.outline.identifiers, Script.Spells (Script.withoutMark block.source.toList) i.place name

/-- A script of the component names something so, or an expression that its template copies mentions
the name. -/
def RefersTo (source name : String) : Prop :=
  (∃ script ∈ (parse source).document.moduleScript.toList ++
      (parse source).document.instanceScript.toList,
    ∃ block, ScriptBlock.ofScript source script = .ok block ∧ block.Names name) ∨
  ∃ e, Copied source e ∧ Mentions name e.chars

/-- The names that a script mentions are those that it spells. -/
theorem ScriptBlock.mentions_iff {script : Markup.Script} {block : ScriptBlock}
    (read : ofScript source script = .ok block) : block.mentions name = true ↔ block.Names name := by
  have spelled : ∀ i ∈ block.outline.identifiers,
      Script.Spells (Script.withoutMark block.source.toList) i.place i.name := by
    unfold ofScript at read
    dsimp only at read
    split at read
    · rename_i outline parsed
      cases read
      exact Script.spells_identifier parsed
    · cases read
  unfold mentions Names
  rw [List.any_eq_true]
  constructor
  · rintro ⟨i, member, same⟩
    exact ⟨i, member, eq_of_beq same ▸ spelled i member⟩
  · rintro ⟨i, member, spells⟩
    exact ⟨i, member, beq_iff_eq.2 ((spelled i member).unique spells)⟩

/-- No expression that is not blank is left out of the template. -/
theorem copied_of_marked (accepted : (parse source).errors = [])
    (marked : .expression e ∈ marksOf (parse source).document.fragment) (filled : e.text ≠ "") :
    Copied source e := by
  have inWanted : e.span ∈ wanted source (marksOf (parse source).document.fragment) := by
    refine Multiset.mem_coe.2 (List.mem_flatMap.2 ⟨_, marked, ?_⟩)
    simp [copiesOf, Expression.isEmpty, filled]
  have copies := sources_templatePieces accepted
  have inSources := Multiset.mem_of_le (copies ▸ Multiset.le_add_right _ _) inWanted
  obtain ⟨piece, member, isMapped⟩ := List.mem_filterMap.1 (Multiset.mem_coe.1 inSources)
  obtain ⟨rfl, _⟩ := copied_of_mapped? member isMapped
  exact ⟨marked, member⟩

/-- An expression that mentions something is copied exactly if it is visited or binds the result of
a promise. -/
theorem copied_iff (accepted : (parse source).errors = []) (mentioned : Mentions name e.chars) :
    Copied source e ↔ e ∈ expressionsOf (parse source).document.fragment ∨
      e ∈ awaitBindings (awaitsOf (parse source).document.fragment) := by
  rw [← mem_marks_nodes]
  have filled : e.text ≠ "" := fun blank => mentioned.ne_nil (by rw [Expression.chars, blank]; rfl)
  exact ⟨Copied.marked, fun marked => copied_of_marked accepted marked filled⟩

private theorem templateMentions_iff {nodes : List Node} :
    templateMentions name nodes = true ↔ ∃ e ∈ expressionsOf nodes, name ∈ identifiers e.chars := by
  simp [templateMentions]

/-- An expression of the template mentions the name where the walk does not look: in the binding of
an `{#await}` branch or in a substitution of a template literal. -/
def MentionsUnseen (name : String) (nodes : List Node) : Prop :=
  (∃ e ∈ awaitBindings (awaitsOf nodes), Mentions name e.chars) ∨
    ∃ e ∈ expressionsOf nodes, MentionsInside name e.chars

/-- What the template copies mentions a name exactly if the walk finds it or does not look there. -/
theorem exists_copied_mentions_iff (accepted : (parse source).errors = []) :
    (∃ e, Copied source e ∧ Mentions name e.chars) ↔
      templateMentions name (parse source).document.fragment = true ∨
        MentionsUnseen name (parse source).document.fragment := by
  rw [templateMentions_iff]
  constructor
  · rintro ⟨e, copied, mentioned⟩
    rcases (copied_iff accepted mentioned).1 copied with visited | binding
    · rcases mentions_iff.1 mentioned with member | inside
      · exact .inl ⟨e, visited, member⟩
      · exact .inr (.inr ⟨e, visited, inside⟩)
    · exact .inr (.inl ⟨e, binding, mentioned⟩)
  · rintro (⟨e, visited, member⟩ | ⟨e, binding, mentioned⟩ | ⟨e, visited, inside⟩)
    · have mentioned := mentions_iff.2 (.inl member)
      exact ⟨e, (copied_iff accepted mentioned).2 (.inl visited), mentioned⟩
    · exact ⟨e, (copied_iff accepted mentioned).2 (.inr binding), mentioned⟩
    · have mentioned := mentions_iff.2 (.inr inside)
      exact ⟨e, (copied_iff accepted mentioned).2 (.inl visited), mentioned⟩

/-- The blocks of the scripts that are there. -/
theorem exists_block_iff {script? : Option Markup.Script} {block? : Option ScriptBlock}
    (read : script?.mapM (ScriptBlock.ofScript source) = .ok block?) :
    (∃ block ∈ block?.toList, block.mentions name = true) ↔ ∃ script ∈ script?.toList,
      ∃ block, ScriptBlock.ofScript source script = .ok block ∧ block.Names name := by
  cases script? with
  | none =>
    cases read
    simp
  | some script =>
    rw [Option.mapM_some] at read
    obtain ⟨block, one, same⟩ := exists_of_bind_ok read
    cases same
    simp [one, ScriptBlock.mentions_iff one]

/-- All properties are found to be used exactly if a script names them or an expression that the walk
visits mentions them. -/
theorem Parts.usesProps_iff {parts : Parts} (reads : parts.Reads source) :
    parts.usesProps = true ↔
      templateMentions propsName (parse source).document.fragment = true ∨
        ∃ script ∈ (parse source).document.moduleScript.toList ++
            (parse source).document.instanceScript.toList,
          ∃ block, ScriptBlock.ofScript source script = .ok block ∧ block.Names propsName := by
  have inModule := @exists_block_iff source propsName _ _ reads.moduleBlock
  have inInstance := @exists_block_iff source propsName _ _ reads.instanceBlock
  simp only [usesProps, reads.fragment, Bool.or_eq_true, List.any_eq_true, List.mem_append,
    or_and_right, exists_or, inModule, inInstance]

/-- The declaration of the variable of all properties. -/
def propsDeclaration : String := "\nlet $$props = __sveltets_allPropsType();"

/-- The module declares the variable of all properties before the code of the template, and behind
it the helper is called that admits properties of any name. -/
def DeclaresProps (code template : String) : Prop :=
  ∃ before body between after, code = before ++ propsDeclaration ++ body ++ template ++ between ++
    "__sveltets_partial_with_any" ++ after

namespace Parts

variable {parts : Parts}

private theorem header_eq (uses : parts.usesProps = true) :
    parts.header = "function render() \x7b" ++ propsDeclaration :=
  congrArg ("function render() \x7b" ++ ·) (if_pos uses)

private theorem footer_eq (uses : parts.usesProps = true) : ∃ before after,
    parts.footer = before ++ "__sveltets_partial_with_any" ++ after :=
  ⟨_, _, congrArg (_ ++ · ++ _) (if_pos uses)⟩

/-- The header is part of the text before the template. -/
theorem emitted_renderPieces : ∃ before after,
    Draft.emittedChars source parts.renderPieces = before ++ parts.header.toList ++ after := by
  unfold renderPieces
  cases parts.instanceBlock with
  | none => exact ⟨[], ['\n'], by simp [Piece.emitted]⟩
  | some block =>
    refine ⟨[], Draft.emittedChars source (instancePieces block parts.isDeclared ++
      [.replaced block.script.closeTag ";\n"]), ?_⟩
    simp [Piece.emitted]

private theorem declaresProps (uses : parts.usesProps = true) :
    DeclaresProps (Draft.ofPieces source (parts.pieces source)).code
      (Draft.ofPieces source (templatePieces source parts.fragment)).code := by
  obtain ⟨before, after, rendered⟩ := @emitted_renderPieces source parts
  obtain ⟨between, last, footer⟩ := footer_eq uses
  let first := (parts.instanceBlock.map importPieces).getD [] ++
    (parts.moduleBlock.map modulePieces).getD []
  refine ⟨String.ofList (Draft.emittedChars source first ++ before) ++ "function render() \x7b",
    String.ofList after, between, last, ?_⟩
  apply String.toList_inj.1
  simp only [String.toList_append, String.toList_ofList, Draft.toList_code_ofPieces, pieces,
    Draft.emittedChars_append, Draft.emittedChars_cons, Draft.emittedChars_nil, rendered, footer,
    header_eq uses, Piece.emitted, List.append_assoc, List.append_nil, first]

end Parts

end TypedSvelte.Component
