import TypedSvelte.Markup.Traversal

/-!
# Places of nodes

A node of a template is found by the way to it: its index among its siblings and then, for a node
further in, the index of a branch and the way from there. The lexicographic order of ways is that of
the document: a node comes before those in its branches, and these before the siblings behind it.
The walk through the elements meets each of them once and in this order (`exists_listing`).
-/
namespace TypedSvelte.Markup

/-- The branches behind the consequent of a condition: one for each condition, and the last one. -/
def Alternate.branches : Alternate → List (List Node)
  | .absent => []
  | .otherwise nodes => [nodes]
  | .elseIf _ _ consequent alternate => consequent :: alternate.branches

def Node.branches : Node → List (List Node)
  | .element _ children => [children]
  | .text _ | .comment _ | .mustache _ _ | .tag _ _ _ => []
  | .ifBlock _ _ consequent alternate => consequent :: alternate.branches
  | .each _ body fallback => body :: fallback.toList
  | .await _ pending onThen onCatch => pending :: (onThen.toList ++ onCatch.toList)
  | .key _ _ body => [body]

def Node.head? : Node → Option ElementHead
  | .element head _ => some head
  | _ => none

theorem Node.head?_eq_some_iff {node : Node} {head : ElementHead} :
    node.head? = some head ↔ ∃ children, node = .element head children := by
  cases node <;> simp [Node.head?]

private theorem Alternate.elements_eq : ∀ rest : Alternate,
    rest.elements = rest.branches.flatMap elementsOf
  | .absent => rfl
  | .otherwise nodes => by simp [Alternate.elements, branches]
  | .elseIf _ _ consequent alternate => by
    rw [Alternate.elements, alternate.elements_eq, branches, List.flatMap_cons]

private theorem elementsOfBranch_eq (branch : Option (List Node)) :
    elementsOfBranch branch = branch.toList.flatMap elementsOf := by
  cases branch <;> simp [elementsOfBranch]

/-- The elements of a node are itself and those of its branches. -/
theorem Node.elements_eq (node : Node) :
    node.elements = node.head?.toList ++ node.branches.flatMap elementsOf := by
  cases node <;>
    simp [Node.elements, Node.head?, Node.branches, Alternate.elements_eq, elementsOfBranch_eq]

theorem Alternate.sizeOf_branch {inner : List Node} : ∀ rest : Alternate,
    inner ∈ rest.branches → sizeOf inner < sizeOf rest
  | .absent, member => by cases member
  | .otherwise nodes, member => by
    cases List.mem_singleton.1 member
    rw [Alternate.otherwise.sizeOf_spec]
    omega
  | .elseIf _ condition consequent alternate, member => by
    rw [Alternate.elseIf.sizeOf_spec]
    rcases List.mem_cons.1 member with rfl | later
    · omega
    · have smaller := alternate.sizeOf_branch later
      omega

/-- The nodes of a branch are smaller than the node. -/
theorem Node.sizeOf_branch {node : Node} {inner : List Node} (member : inner ∈ node.branches) :
    sizeOf inner < sizeOf node := by
  have optional {branch : Option (List Node)} (inBranch : inner ∈ branch.toList) :
      sizeOf inner < sizeOf branch := by
    rw [Option.mem_toList.1 inBranch, Option.some.sizeOf_spec]
    omega
  cases node with
  | element head children =>
    cases List.mem_singleton.1 member
    rw [Node.element.sizeOf_spec]
    omega
  | text _ | comment _ | mustache _ _ | tag _ _ _ => cases member
  | ifBlock _ condition consequent alternate =>
    rw [Node.ifBlock.sizeOf_spec]
    rcases List.mem_cons.1 member with rfl | later
    · omega
    · have smaller := alternate.sizeOf_branch later
      omega
  | each head body fallback =>
    rw [Node.each.sizeOf_spec]
    rcases List.mem_cons.1 member with rfl | inFallback
    · omega
    · have smaller := optional inFallback
      omega
  | await head pending onThen onCatch =>
    rw [Node.await.sizeOf_spec]
    rcases List.mem_cons.1 member with rfl | inOutcome
    · omega
    rcases List.mem_append.1 inOutcome with inThen | inCatch
    · have smaller := optional inThen
      omega
    · have smaller := optional inCatch
      omega
  | key _ e body =>
    cases List.mem_singleton.1 member
    rw [Node.key.sizeOf_spec]
    omega

def nodeAt? : List Node → List Nat → Option Node
  | _, [] => none
  | nodes, [i] => nodes[i]?
  | nodes, i :: branch :: way =>
    (nodes[i]?.bind (·.branches[branch]?)).bind fun inner => nodeAt? inner way

/-- What is found by ways that begin with the index of one of several parts. -/
def among {α β : Type} (parts : List β) (at? : β → List Nat → Option α) : List Nat → Option α
  | [] => none
  | i :: way => parts[i]?.bind (at? · way)

def headAt? (nodes : List Node) (way : List Nat) : Option ElementHead :=
  (nodeAt? nodes way).bind Node.head?

/-- The element at the end of a way that begins at a node. -/
def Node.headAt? (node : Node) : List Nat → Option ElementHead
  | [] => node.head?
  | way => among node.branches Markup.headAt? way

theorem headAt?_eq_among (nodes : List Node) : headAt? nodes = among nodes Node.headAt? := by
  funext way
  match way with
  | [] => rfl
  | [i] => rfl
  | i :: branch :: way =>
    simp only [headAt?, nodeAt?, among, Node.headAt?, Option.bind_assoc]

variable {α β : Type}

/-- All that is found by ways, in the order of the ways. -/
structure Listing (at? : List Nat → Option α) (found : List (List Nat × α)) : Prop where
  ordered : found.Pairwise fun a b => a.1 < b.1
  complete : ∀ way a, (way, a) ∈ found ↔ at? way = some a

/-- The same way from the part behind the one that it begins with. -/
def nextPart : List Nat → List Nat
  | [] => []
  | i :: way => (i + 1) :: way

/-- A way among parts begins with the index of a part. -/
theorem Listing.begun {parts : List β} {at? : β → List Nat → Option α}
    {found : List (List Nat × α)} (listed : Listing (among parts at?) found)
    {x : List Nat × α} (member : x ∈ found) : ∃ i inner, x.1 = i :: inner := by
  have isFound := (listed.complete x.1 x.2).1 member
  cases way : x.1 with
  | nil =>
    rw [way] at isFound
    cases isFound
  | cons i inner => exact ⟨i, inner, rfl⟩

private theorem mem_firstPart_iff {found : List (List Nat × α)} {way : List Nat} {a : α} :
    (way, a) ∈ found.map (fun x => (0 :: x.1, x.2)) ↔
      ∃ inner, way = 0 :: inner ∧ (inner, a) ∈ found := by
  constructor
  · intro member
    obtain ⟨⟨inner, _⟩, isFound, same⟩ := List.mem_map.1 member
    cases same
    exact ⟨inner, rfl, isFound⟩
  · rintro ⟨inner, rfl, isFound⟩
    exact List.mem_map.2 ⟨_, isFound, rfl⟩

private theorem mem_nextPart_iff {found : List (List Nat × α)}
    (begun : ∀ x ∈ found, ∃ i inner, x.1 = i :: inner) {way : List Nat} {a : α} :
    (way, a) ∈ found.map (fun x => (nextPart x.1, x.2)) ↔
      ∃ i inner, way = (i + 1) :: inner ∧ (i :: inner, a) ∈ found := by
  constructor
  · intro member
    obtain ⟨⟨before, _⟩, isFound, same⟩ := List.mem_map.1 member
    obtain ⟨i, inner, rfl⟩ := begun _ isFound
    cases same
    exact ⟨i, inner, rfl, isFound⟩
  · rintro ⟨i, inner, rfl, isFound⟩
    exact List.mem_map.2 ⟨_, isFound, rfl⟩

/-- What is found among parts is listed part by part. -/
theorem exists_listing_among {parts : List β} {at? : β → List Nat → Option α} {out : β → List α}
    (each : ∀ part ∈ parts, ∃ found, Listing (at? part) found ∧ found.map (·.2) = out part) :
    ∃ found, Listing (among parts at?) found ∧ found.map (·.2) = parts.flatMap out := by
  induction parts with
  | nil =>
    refine ⟨[], ⟨.nil, fun way a => ?_⟩, rfl⟩
    cases way <;> simp [among]
  | cons part rest ih =>
    obtain ⟨⟨first, firstListed, firstOut⟩, restEach⟩ := List.forall_mem_cons.1 each
    obtain ⟨later, laterListed, laterOut⟩ := ih restEach
    have begun : ∀ x ∈ later, ∃ i inner, x.1 = i :: inner := fun _ => laterListed.begun
    refine ⟨first.map (fun x => (0 :: x.1, x.2)) ++ later.map (fun x => (nextPart x.1, x.2)),
      ⟨List.pairwise_append.2 ⟨?_, ?_, ?_⟩, fun way a => ?_⟩, ?_⟩
    · refine List.pairwise_map.2 (firstListed.ordered.imp fun before => ?_)
      exact List.cons_lt_cons_iff.2 (.inr ⟨rfl, before⟩)
    · refine List.pairwise_map.2 (laterListed.ordered.imp_of_mem fun inX inY before => ?_)
      obtain ⟨i, _, xWay⟩ := begun _ inX
      obtain ⟨j, _, yWay⟩ := begun _ inY
      rw [xWay, yWay, List.cons_lt_cons_iff] at before
      rw [xWay, yWay]
      exact List.cons_lt_cons_iff.2 (before.imp Nat.succ_lt_succ (And.imp_left (congrArg _)))
    · intro x inFirst y inLater
      obtain ⟨_, xWay, _⟩ := mem_firstPart_iff.1 inFirst
      obtain ⟨i, _, yWay, _⟩ := (mem_nextPart_iff begun).1 inLater
      rw [xWay, yWay]
      exact List.cons_lt_cons_iff.2 (.inl (Nat.succ_pos i))
    · rw [List.mem_append, mem_firstPart_iff, mem_nextPart_iff begun]
      match way with
      | [] => simp [among]
      | 0 :: inner => simp [among, firstListed.complete]
      | (i + 1) :: inner => simp [laterListed.complete, among, and_assoc]
    · rw [List.flatMap_cons, ← firstOut, ← laterOut, List.map_append, List.map_map, List.map_map]
      rfl

/-- A node is listed before what is in its branches. -/
theorem exists_listing_node {node : Node}
    (each : ∀ inner ∈ node.branches, ∃ found, Listing (headAt? inner) found ∧
      found.map (·.2) = elementsOf inner) :
    ∃ found, Listing node.headAt? found ∧ found.map (·.2) = node.elements := by
  obtain ⟨inside, listed, out⟩ := exists_listing_among each
  refine ⟨node.head?.toList.map ([], ·) ++ inside,
    ⟨List.pairwise_append.2 ⟨?_, listed.ordered, ?_⟩, fun way a => ?_⟩, ?_⟩
  · cases node.head? <;> simp
  · intro x own y inBranch
    obtain ⟨_, _, rfl⟩ := List.mem_map.1 own
    have found := (listed.complete y.1 y.2).1 inBranch
    cases way : y.1 with
    | nil =>
      rw [way] at found
      cases found
    | cons branch rest => exact List.nil_lt_cons _ _
  · cases way with
    | nil =>
      have outside : ([], a) ∉ inside := fun member => nomatch (listed.complete [] a).1 member
      simp [Node.headAt?, outside]
    | cons branch rest =>
      rw [List.mem_append, listed.complete]
      simp [Node.headAt?]
  · rw [Node.elements_eq, ← out, List.map_append, List.map_map]
    exact congrArg (· ++ _) (List.map_id _)

/-- The walk through the elements lists them in the order of the document, each at one place. -/
theorem exists_listing (nodes : List Node) :
    ∃ found, Listing (headAt? nodes) found ∧ found.map (·.2) = elementsOf nodes := by
  have flat : elementsOf nodes = nodes.flatMap Node.elements := by
    induction nodes with
    | nil => rfl
    | cons node rest ih => rw [elementsOf, ih, List.flatMap_cons]
  rw [headAt?_eq_among, flat]
  refine exists_listing_among fun node member => exists_listing_node fun inner inNode => ?_
  have here := List.sizeOf_lt_of_mem member
  have below := Node.sizeOf_branch inNode
  exact exists_listing inner
termination_by sizeOf nodes

end TypedSvelte.Markup
