import TypedSvelte.Proofs.Markup.RenderedBlocks

/-!
# Reading canonical texts back

The parts of a forest nest in one another, so what is read from them is proved by one recursion over
trees, forests and the branches of blocks. A text in a forest ends where the next part begins, since
no part begins with text (`endsText_tree`, `endsText_alternative` and their like).
-/
namespace TypedSvelte.Markup

open Scan Reading

/-- A block with the branch, if it is present. -/
def Branch.putInto (word : AwaitBranch) : Branch → Awaiting → Awaiting
  | .absent => id
  | .present binding nodes => fun a => a.put word (binding.map Ident.expression) nodes.nodes

private theorem lacks_putInto (branch : Branch) (a : Awaiting) :
    (branch.putInto .then_ a).lacks .catch_ = a.lacks .catch_ := by
  cases branch with
  | absent => rfl
  | present => rfl

/-- The node of an `{#await}` block is the one that its branches make. -/
theorem node_await (subject : Ident) (pending : Forest) (onThen onCatch : Branch) :
    (Tree.await subject pending onThen onCatch).node =
      (onCatch.putInto .catch_ (onThen.putInto .then_
        ⟨0, Ident.expression subject, pending.nodes, none, none⟩)).node 0 := by
  cases onThen with
  | absent =>
    cases onCatch with
    | absent => rfl
    | present => rfl
  | present =>
    cases onCatch with
    | absent => rfl
    | present => rfl

private theorem endsText_tree (tree : Tree) (rest : List Char) : EndsText (tree.render ++ rest) := by
  cases tree with
  | element name attributes children =>
    obtain ⟨c, cs, begins, lower, _⟩ := tagName_cases name
    unfold Tree.render
    rw [begins]
    simp only [List.cons_append]
    exact endsText_tag (isAlpha_of_isLower lower)
  | mustache => rfl
  | ifBlock => rfl
  | each => rfl
  | await => rfl
  | key => rfl

private theorem endsText_alternative (alternative : Alternative) (rest : List Char) :
    EndsText (alternative.render ++ '{' :: rest) := by
  cases alternative with
  | absent => rfl
  | otherwise => rfl
  | elseIf => rfl

private theorem endsText_fallback (fallback : Fallback) (rest : List Char) :
    EndsText (fallback.render ++ '{' :: rest) := by
  cases fallback with
  | absent => rfl
  | present => rfl

private theorem endsText_branch {rest : List Char} (word : AwaitBranch) (branch : Branch)
    (ends : EndsText rest) : EndsText (branch.render word ++ rest) := by
  cases branch with
  | absent => exact ends
  | present => rfl

-- The text behind a part is arbitrary: it is what is left of the parts around it.

mutual

private theorem reads_tree : ∀ (tree : Tree) (rest : List Char), Reads tree.render [tree.node] rest
  | .element _ _ children, _ => reads_element (reads_forest children _ rfl)
  | .mustache _, _ => reads_mustache
  | .ifBlock _ consequent alternate, _ =>
    reads_if (reads_forest consequent _ (endsText_alternative alternate _))
      (endsCondition_alternative alternate)
  | .each _ _ _ _ body fallback, _ =>
    reads_each (reads_forest body _ (endsText_fallback fallback _)) (endsEach_fallback fallback)
  | .await subject pending onThen onCatch, _ => by
    rw [node_await]
    exact reads_await
      (reads_forest pending _ (endsText_branch _ onThen (endsText_branch _ onCatch endsText_brace)))
      (putsBranch_branch .then_ onThen) (putsBranch_branch .catch_ onCatch)
      (endsText_branch _ onCatch endsText_brace) (lacks_putInto onThen)
  | .key _ body, _ => reads_key (reads_forest body _ endsText_brace)

private theorem reads_forest : ∀ (forest : Forest) (rest : List Char), EndsText rest →
    Reads forest.render forest.nodes rest
  | .nil, _, _ => reads_nil
  | .last _, _, ends => reads_text ends
  | .cons none tree more, rest, ends => (reads_tree tree _).append (reads_forest more rest ends)
  | .cons (some _) tree more, rest, ends =>
    ((reads_text (endsText_tree tree _)).append (reads_tree tree _)).append
      (reads_forest more rest ends)

private theorem endsCondition_alternative : ∀ alternative : Alternative,
    EndsCondition alternative.render alternative.alternate
  | .absent => endsCondition_absent
  | .otherwise nodes => endsCondition_otherwise (reads_forest nodes)
  | .elseIf _ consequent alternate =>
    endsCondition_elseIf (reads_forest consequent) (endsText_alternative alternate)
      (endsCondition_alternative alternate)

private theorem endsEach_fallback : ∀ fallback : Fallback, EndsEach fallback.render fallback.nodes
  | .absent => endsEach_absent
  | .present nodes => endsEach_present (reads_forest nodes)

private theorem putsBranch_branch (word : AwaitBranch) : ∀ branch : Branch,
    PutsBranch (branch.render word) word (branch.putInto word)
  | .absent => putsBranch_absent
  | .present _ nodes => putsBranch_present (reads_forest nodes)

end

/-- Reading the canonical text of a forest gives, without an error, the nodes of this forest and of no
other, up to spans. -/
theorem parse_render (forest : Forest) :
    (parse (String.ofList forest.render)).errors = [] ∧
      (parse (String.ofList forest.render)).document.moduleScript = none ∧
      (parse (String.ofList forest.render)).document.instanceScript = none ∧
      (parse (String.ofList forest.render)).document.styles = [] ∧
      ∀ other : Forest,
        bareNodes (parse (String.ofList forest.render)).document.fragment = other.nodes ↔
          other = forest := by
  obtain ⟨last, reaches, ended, stack, nodes⟩ := reads_forest forest [] rfl _ (rest_start _)
  have fragment : bareNodes last.nodes.reverse = forest.nodes := by
    rw [bareNodes_eq_map, List.map_reverse, nodes]
    simp [Reading.start]
  unfold parse
  dsimp only
  rw [reaches.finish, finish_of_read ended stack, reaches.errors, reaches.moduleScript,
    reaches.instanceScript, reaches.styles, fragment]
  refine ⟨rfl, rfl, rfl, rfl, fun other => ⟨fun same => (forest.eq_of_nodes other same).symm, ?_⟩⟩
  rintro rfl
  rfl

end TypedSvelte.Markup
