import TypedSvelte.Component.Template
import TypedSvelte.Proofs.Markup.NodePlaces
import TypedSvelte.Proofs.Position.Layout

/-!
# Layouts of templates

Nodes stand in branches of other nodes. What is emitted for a node is laid out as its branches, with
pieces of its own before, between and behind them (`nodePieces_eq`), and some branches are emitted
as blocks: those of conditions and loops, the outcomes of a promise, and the children of an element
that takes properties of a slot. So a way through branches leads to a place in the template at which
the nodes there are emitted (`exists_after`), and of two branches one is emitted before the other
(`exists_between`).
-/
namespace TypedSvelte.Component

open Markup

/-- Nodes in a branch of a node, with what is emitted around them. -/
structure Branch where
  opening : List Piece
  /-- The nodes have a block of their own. -/
  opens : Bool
  nodes : List Node
  closing : List Piece

/-- A branch that is emitted as a block, which begins with declarations. -/
def Branch.block (declared : List Piece) (nodes : List Node) : Branch :=
  ⟨.fresh "\x7b\n" :: declared, true, nodes, [.fresh "\x7d\n"]⟩

def Branch.bare (nodes : List Node) : Branch := ⟨[], false, nodes, []⟩

def Branch.pieces (source : String) (b : Branch) : List Piece :=
  b.opening ++ nodesPieces source b.nodes ++ b.closing

/-- What is emitted for a node: its branches, and what comes before and behind them. -/
structure Layout where
  lead : List Piece
  branches : List Branch
  trail : List Piece

/-- The branches behind the consequent of a condition. -/
def alternateBranches : Alternate → List Branch
  | .absent => []
  | .otherwise nodes => [⟨[.fresh " else \x7b\n"], true, nodes, [.fresh "\x7d"]⟩]
  | .elseIf _ condition consequent alternate =>
    ⟨.fresh " else " :: conditionPieces condition, true, consequent, [.fresh "\x7d"]⟩
      :: alternateBranches alternate

def childBranch (source : String) (head : ElementHead) (children : List Node) : Branch :=
  match slotBindings head.attributes with
  | [] => .bare children
  | bindings => .block (bindings.flatMap (slotBindingPieces source)) children

def nodeLayout (source : String) : Node → Layout
  | .element head children =>
    ⟨head.attributes.flatMap (attributePieces source), [childBranch source head children], []⟩
  | .text _ | .comment _ => ⟨[], [], []⟩
  | .mustache _ e => ⟨statementOf e.span, [], []⟩
  | .tag _ kind e => ⟨tagPieces kind e, [], []⟩
  | .ifBlock _ condition consequent alternate =>
    ⟨[], ⟨conditionPieces condition, true, consequent, [.fresh "\x7d"]⟩ ::
      alternateBranches alternate, [.fresh "\n"]⟩
  | .each head body fallback =>
    ⟨[], ⟨eachPieces head, true, body, [.fresh "\x7d\n"]⟩ :: (fallback.map (.block [])).toList, []⟩
  | .await head pending onThen onCatch =>
    ⟨statementOf head.expression.span,
      .bare pending :: (onThen.map (.block (thenPieces head))).toList ++
        (onCatch.map (.block (catchPieces head))).toList, []⟩
  | .key _ e body => ⟨statementOf e.span, [.bare body], []⟩

variable {source : String}

private theorem alternatePieces_eq (rest : Alternate) :
    alternatePieces source rest = (alternateBranches rest).flatMap (Branch.pieces source) := by
  fun_induction alternateBranches rest with
  | case1 => rfl
  | case2 nodes => simp [alternatePieces, Branch.pieces]
  | case3 span condition consequent alternate ih =>
    simp [alternatePieces, Branch.pieces, ih]

private theorem branchPieces_eq (declared : List Piece) (branch : Option (List Node)) :
    branchPieces source declared branch =
      ((branch.map (Branch.block declared)).toList).flatMap (Branch.pieces source) := by
  cases branch <;> simp [branchPieces, Branch.pieces, Branch.block]

private theorem elementPieces_eq (head : ElementHead) (children : List Node) :
    elementPieces source head (nodesPieces source children) =
      head.attributes.flatMap (attributePieces source) ++
        (childBranch source head children).pieces source := by
  unfold elementPieces childBranch
  cases slotBindings head.attributes <;> simp [Branch.pieces, Branch.block, Branch.bare]

/-- A node is emitted as its layout says. -/
theorem nodePieces_eq (node : Node) : nodePieces source node =
    (nodeLayout source node).lead ++
      (nodeLayout source node).branches.flatMap (Branch.pieces source) ++
        (nodeLayout source node).trail := by
  cases node with
  | element head children =>
    rw [nodePieces, elementPieces_eq]
    simp [nodeLayout]
  | text _ | comment _ => rfl
  | mustache _ e => simp [nodePieces, nodeLayout]
  | tag _ kind e => simp [nodePieces, nodeLayout]
  | ifBlock _ condition consequent alternate =>
    simp [nodePieces, nodeLayout, Branch.pieces, alternatePieces_eq]
  | each head body fallback =>
    simp [nodePieces, nodeLayout, Branch.pieces, branchPieces_eq]
  | await head pending onThen onCatch =>
    simp [nodePieces, nodeLayout, branchPieces_eq, Branch.pieces, Branch.bare]
  | key _ e body => simp [nodePieces, nodeLayout, Branch.pieces, Branch.bare]

private theorem nodes_childBranch (head : ElementHead) (children : List Node) :
    (childBranch source head children).nodes = children := by
  unfold childBranch
  split <;> rfl

private theorem nodes_alternateBranches (rest : Alternate) :
    (alternateBranches rest).map (·.nodes) = rest.branches := by
  fun_induction alternateBranches rest with
  | case1 | case2 => rfl
  | case3 span condition consequent alternate ih =>
    rw [List.map_cons, ih]
    rfl

private theorem nodes_optional (declared : List Piece) (branch : Option (List Node)) :
    (branch.map (Branch.block declared)).toList.map (·.nodes) = branch.toList := by
  cases branch <;> rfl

/-- A node is laid out as the branches that it has. -/
theorem nodes_nodeLayout (node : Node) :
    (nodeLayout source node).branches.map (·.nodes) = node.branches := by
  cases node with
  | element head children => exact congrArg ([·]) (nodes_childBranch head children)
  | text _ | comment _ | mustache _ _ | tag _ _ _ | key _ _ _ => rfl
  | ifBlock _ condition consequent alternate =>
    exact congrArg (consequent :: ·) (nodes_alternateBranches alternate)
  | each head body fallback => exact congrArg (body :: ·) (nodes_optional _ fallback)
  | await head pending onThen onCatch =>
    rw [nodeLayout, List.map_append, List.map_cons, nodes_optional, nodes_optional]
    rfl

/-- The nodes of a branch are smaller than its node. -/
theorem sizeOf_branch {b : Branch} {node : Node} (member : b ∈ (nodeLayout source node).branches) :
    sizeOf b.nodes < sizeOf node :=
  Node.sizeOf_branch (@nodes_nodeLayout source node ▸ List.mem_map_of_mem member)

/-- The way to the nodes of a branch from the outermost ones: the index of a node among its siblings
and the index of one of its branches, again and again. -/
abbrev Way := List (Nat × Nat)

def branchAt? (source : String) (nodes : List Node) (step : Nat × Nat) : Option Branch :=
  nodes[step.1]?.bind fun node => (nodeLayout source node).branches[step.2]?

def nodesAt? (source : String) : List Node → Way → Option (List Node)
  | nodes, [] => some nodes
  | nodes, step :: way => (branchAt? source nodes step).bind fun b => nodesAt? source b.nodes way

/-- The expression of the constant that is declared by a node of the nodes at the end of a way. -/
def constantAt? (source : String) (nodes : List Node) (way : Way) (i : Nat) : Option Expression :=
  match (nodesAt? source nodes way).bind (·[i]?) with
  | some (.tag _ .const e) => e
  | _ => none

/-- The first part of a way that leads to the nearest branch with a block of its own. -/
def scopeOf (source : String) : List Node → Way → Way
  | _, [] => []
  | nodes, step :: way =>
    match branchAt? source nodes step with
    | none => []
    | some b =>
      match scopeOf source b.nodes way with
      | [] => if b.opens then [step] else []
      | scope => step :: scope

def leadIn (source : String) (nodes : List Node) (step : Nat × Nat) : List Piece :=
  nodesPieces source (nodes.take step.1) ++
    match nodes[step.1]? with
    | none => []
    | some node => (nodeLayout source node).lead ++
        ((nodeLayout source node).branches.take step.2).flatMap (Branch.pieces source)

/-- What is emitted before a node of the nodes at the end of a way. -/
def piecesBefore (source : String) : List Node → Way → Nat → List Piece
  | nodes, [], i => nodesPieces source (nodes.take i)
  | nodes, step :: way, i =>
    match branchAt? source nodes step with
    | none => []
    | some b => leadIn source nodes step ++ (b.opening ++ piecesBefore source b.nodes way i)

/-- The offset in the template at which a node of the nodes at the end of a way is emitted. -/
def placeOf (source : String) (nodes : List Node) (way : Way) (i : Nat) : Nat :=
  Draft.emittedSize source (.fresh "(() => \x7b\n" :: piecesBefore source nodes way i)

section

variable {nodes inner : List Node} {step other : Nat × Nat} {b c : Branch} {node : Node} {way : Way}
  {i : Nat} {e : Expression}

theorem nodesPieces_append (nodes others : List Node) : nodesPieces source (nodes ++ others) =
    nodesPieces source nodes ++ nodesPieces source others := by
  induction nodes with
  | nil => rfl
  | cons node rest ih => rw [List.cons_append, nodesPieces, nodesPieces, ih, List.append_assoc]

/-- The first `m` members of a list are those before one of them, it, and those behind it. -/
theorem exists_take_eq {α : Type} {xs : List α} {x : α} {n m : Nat} (found : xs[n]? = some x)
    (before : n < m) : ∃ between, xs.take m = xs.take n ++ x :: between := by
  obtain ⟨inside, rfl⟩ := List.getElem?_eq_some_iff.1 found
  refine ⟨(xs.take m).drop (n + 1), ?_⟩
  have bound : n < (xs.take m).length := by
    rw [List.length_take]
    omega
  calc
    xs.take m = (xs.take m).take n ++ (xs.take m).drop n := (List.take_append_drop ..).symm
    _ = xs.take n ++ xs[n] :: (xs.take m).drop (n + 1) := by
      rw [List.take_take, Nat.min_eq_left (Nat.le_of_lt before), List.drop_eq_getElem_cons bound,
        List.getElem_take]

/-- A list is what is before one of its members, it, and what is behind it. -/
theorem exists_eq_take_append {α : Type} {xs : List α} {x : α} {n : Nat}
    (found : xs[n]? = some x) : ∃ later, xs = xs.take n ++ x :: later := by
  obtain ⟨later, parts⟩ := exists_take_eq found (List.getElem?_eq_some_iff.1 found).1
  rw [List.take_length] at parts
  exact ⟨later, parts⟩

private theorem leadIn_eq (inNodes : nodes[step.1]? = some node) :
    leadIn source nodes step = nodesPieces source (nodes.take step.1) ++
      ((nodeLayout source node).lead ++
        ((nodeLayout source node).branches.take step.2).flatMap (Branch.pieces source)) := by
  rw [leadIn, inNodes]

private theorem exists_behind (inNode : (nodeLayout source node).branches[i]? = some b) : ∃ behind,
      nodePieces source node = (nodeLayout source node).lead ++
        ((nodeLayout source node).branches.take i).flatMap (Branch.pieces source) ++
          (b.pieces source ++ behind) := by
  obtain ⟨later, parts⟩ := exists_eq_take_append inNode
  refine ⟨later.flatMap (Branch.pieces source) ++ (nodeLayout source node).trail, ?_⟩
  rw [nodePieces_eq]
  conv_lhs => rw [parts]
  simp

/-- A branch is emitted between what is emitted before and behind it, also among other nodes. -/
theorem exists_emitted (found : branchAt? source nodes step = some b) : ∃ behind,
    nodesPieces source nodes = leadIn source nodes step ++ (b.pieces source ++ behind) := by
  obtain ⟨node, inNodes, inNode⟩ := Option.bind_eq_some_iff.1 found
  obtain ⟨later, parts⟩ := exists_eq_take_append inNodes
  obtain ⟨behind, whole⟩ := exists_behind inNode
  refine ⟨behind ++ nodesPieces source later, ?_⟩
  rw [leadIn_eq inNodes]
  conv_lhs => rw [parts, nodesPieces_append, nodesPieces, whole]
  simp

/-- A branch is emitted before those that stand behind it. -/
theorem exists_between_of_before (found : branchAt? source nodes step = some b)
    (isOther : branchAt? source nodes other = some c)
    (before : step.1 < other.1 ∨ step.1 = other.1 ∧ step.2 < other.2) : ∃ between,
      leadIn source nodes other = leadIn source nodes step ++ (b.pieces source ++ between) := by
  obtain ⟨node, inNodes, inNode⟩ := Option.bind_eq_some_iff.1 found
  obtain ⟨_, inOther, _⟩ := Option.bind_eq_some_iff.1 isOther
  rw [leadIn_eq inNodes, leadIn_eq inOther]
  rcases before with earlier | ⟨same, earlier⟩
  · obtain ⟨siblings, parts⟩ := exists_take_eq inNodes earlier
    obtain ⟨behind, whole⟩ := exists_behind inNode
    rw [parts, nodesPieces_append, nodesPieces, whole]
    exact ⟨_, by simp only [List.append_assoc]; rfl⟩
  · rw [same] at inNodes ⊢
    cases Option.some.inj (inNodes.symm.trans inOther)
    obtain ⟨branches, parts⟩ := exists_take_eq inNode earlier
    rw [parts, List.flatMap_append, List.flatMap_cons]
    exact ⟨_, by simp only [List.append_assoc]; rfl⟩

/-- Of two branches one is emitted before the other. -/
theorem exists_between (found : branchAt? source nodes step = some b)
    (isOther : branchAt? source nodes other = some c) (differ : step ≠ other) :
    (∃ between, leadIn source nodes other =
      leadIn source nodes step ++ (b.pieces source ++ between)) ∨
    ∃ between, leadIn source nodes step =
      leadIn source nodes other ++ (c.pieces source ++ between) := by
  have apart : step.1 ≠ other.1 ∨ step.2 ≠ other.2 := by
    refine not_and_or.1 fun same => differ (Prod.ext same.1 same.2)
  have order : (step.1 < other.1 ∨ step.1 = other.1 ∧ step.2 < other.2) ∨
      (other.1 < step.1 ∨ other.1 = step.1 ∧ other.2 < step.2) := by
    omega
  exact order.imp (exists_between_of_before found isOther) (exists_between_of_before isOther found)

theorem scopeOf_cons (found : branchAt? source nodes step = some b) :
    scopeOf source nodes (step :: way) =
      match scopeOf source b.nodes way with
      | [] => if b.opens then [step] else []
      | scope => step :: scope := by
  rw [scopeOf, found]

/-- The nearest block on a way is on no way that begins with another branch. -/
theorem scopeOf_cons_eq_nil_or (source : String) (nodes : List Node) (step : Nat × Nat) (way : Way) :
    scopeOf source nodes (step :: way) = [] ∨
      ∃ scope, scopeOf source nodes (step :: way) = step :: scope := by
  cases found : branchAt? source nodes step with
  | none => exact .inl (by rw [scopeOf, found])
  | some b =>
    rw [scopeOf_cons found]
    cases scopeOf source b.nodes way with
    | nil => cases b.opens <;> simp
    | cons => exact .inr ⟨_, rfl⟩

/-- A node at the end of a way is emitted behind what is emitted before it. -/
theorem exists_after (found : nodesAt? source nodes way = some inner)
    (member : inner[i]? = some node) :
    ∃ after, nodesPieces source nodes =
      piecesBefore source nodes way i ++ (nodePieces source node ++ after) := by
  induction way generalizing nodes with
  | nil =>
    cases found
    obtain ⟨later, parts⟩ := exists_eq_take_append member
    refine ⟨nodesPieces source later, ?_⟩
    rw [piecesBefore]
    conv_lhs => rw [parts, nodesPieces_append, nodesPieces]
  | cons step way ih =>
    obtain ⟨b, isBranch, further⟩ := Option.bind_eq_some_iff.1 found
    obtain ⟨behind, whole⟩ := exists_emitted isBranch
    obtain ⟨after, inside⟩ := ih further
    refine ⟨after ++ (b.closing ++ behind), ?_⟩
    rw [whole, piecesBefore, isBranch, Branch.pieces, inside]
    simp only [List.append_assoc]

/-- A template, cut before and behind one of its nodes. -/
theorem exists_template_split (found : nodesAt? source nodes way = some inner)
    (member : inner[i]? = some node) :
    ∃ after, templatePieces source nodes =
      .fresh "(() => \x7b\n" :: piecesBefore source nodes way i ++
        (nodePieces source node ++ after) := by
  obtain ⟨after, whole⟩ := exists_after found member
  refine ⟨after ++ [.fresh "\x7d);\n"], ?_⟩
  rw [templatePieces, whole]
  simp

theorem exists_constant (found : constantAt? source nodes way i = some e) : ∃ inner span,
    nodesAt? source nodes way = some inner ∧ inner[i]? = some (.tag span .const (some e)) := by
  unfold constantAt? at found
  split at found
  · rename_i span _ here
    rw [found] at here
    obtain ⟨inner, toInner, member⟩ := Option.bind_eq_some_iff.1 here
    exact ⟨inner, span, toInner, member⟩
  · cases found

/-- The declaration of a constant stands at its place. -/
theorem slice_constant (found : constantAt? source nodes way i = some e) :
    slice? (Draft.ofPieces source (templatePieces source nodes)).code (placeOf source nodes way i)
      (placeOf source nodes way i + ("const " ++ e.span.text source ++ ";\n").utf8ByteSize) =
        some ("const " ++ e.span.text source ++ ";\n") := by
  obtain ⟨inner, span, toInner, member⟩ := exists_constant found
  obtain ⟨after, whole⟩ := exists_template_split toInner member
  have statement : Draft.emittedChars source (nodePieces source (.tag span .const (some e))) =
      ("const " ++ e.span.text source ++ ";\n").toList := by
    simp [nodePieces, tagPieces, Piece.emitted]
  refine (slice?_eq_some_iff ..).2 ⟨String.ofList (Draft.emittedChars source
    (.fresh "(() => \x7b\n" :: piecesBefore source nodes way i)),
      String.ofList (Draft.emittedChars source after), ?_, ?_, rfl⟩
  · apply String.toList_injective
    rw [Draft.toList_code_ofPieces, whole, Draft.emittedChars_append, Draft.emittedChars_append,
      statement]
    simp
  · rw [utf8ByteSize_ofList, ← Draft.emittedSize_eq]
    rfl

end

end TypedSvelte.Component
