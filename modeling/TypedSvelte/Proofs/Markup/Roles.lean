import TypedSvelte.Markup.Nesting
import TypedSvelte.Markup.Traversal

/-!
# Roles of expressions

What an expression is to the construct that it belongs to. Expressions are told in their roles of
nodes at any depth (`Node.roles`) and of a construct that is still open (`Construct.casts`).
-/
namespace TypedSvelte.Markup

/-- What an expression is to the construct that it belongs to. -/
inductive Role where
  /-- A shorthand, or in the value of an attribute or of a directive. -/
  | value
  /-- The value of a directive that names a property of a slot. -/
  | slotProp
  | spread | mustache
  | tag (kind : TagKind)
  | condition | elseIf
  | items | context | index | key
  | promise | result
  | keyed
  deriving DecidableEq

abbrev Cast := Role × Expression

def castAs (role : Role) (es : List Expression) : List Cast := es.map (role, ·)

def Attribute.role : Attribute → Role
  | .plain _ | .shorthand _ => .value
  | .spread _ => .spread
  | .directive d => if d.kind == .slotProp then .slotProp else .value

def Attribute.roles (a : Attribute) : List Cast := castAs a.role a.expressions

/-- The parts of an `{#each}` header in their roles. -/
def EachHeader.roles (header : EachHeader) : List Cast :=
  (.items, header.expression) :: castAs .context header.context.toList
    ++ castAs .index header.index.toList ++ castAs .key header.key.toList

/-- The parts of an `{#await}` header in their roles. -/
def AwaitHeader.roles (header : AwaitHeader) : List Cast :=
  (.promise, header.expression) :: castAs .result (header.branch.bind (·.2)).toList

/-- The parts of the header of an `{#each}` block. -/
def EachHead.header (head : EachHead) : EachHeader :=
  ⟨head.expression, head.context, head.index, head.key⟩

mutual

/-- The expressions of a node at any depth in their roles. -/
def Node.roles : Node → List Cast
  | .element head children => head.attributes.flatMap Attribute.roles ++ rolesOf children
  | .text _ | .comment _ => []
  | .mustache _ e => [(.mustache, e)]
  | .tag _ kind e => castAs (.tag kind) e.toList
  | .ifBlock _ condition consequent alternate =>
    (.condition, condition) :: rolesOf consequent ++ alternate.roles
  | .each head body fallback =>
    head.header.roles ++ rolesOf body ++ rolesOfBranch fallback
  | .await head pending onThen onCatch =>
    (.promise, head.expression) ::
      castAs .result (head.thenBinding.toList ++ head.catchBinding.toList)
      ++ rolesOf pending ++ rolesOfBranch onThen ++ rolesOfBranch onCatch
  | .key _ e body => (.keyed, e) :: rolesOf body

def rolesOf : List Node → List Cast
  | [] => []
  | node :: rest => node.roles ++ rolesOf rest

/-- The expressions of a branch in their roles, if it is there. -/
def rolesOfBranch : Option (List Node) → List Cast
  | none => []
  | some nodes => rolesOf nodes

/-- The expressions of what follows the consequent of a condition in their roles. -/
def Alternate.roles : Alternate → List Cast
  | .absent => []
  | .otherwise nodes => rolesOf nodes
  | .elseIf _ condition consequent alternate =>
    (.elseIf, condition) :: rolesOf consequent ++ alternate.roles

end

theorem mem_castAs {role : Role} {es : List Expression} {cast : Cast} :
    cast ∈ castAs role es ↔ cast.1 = role ∧ cast.2 ∈ es := by
  obtain ⟨other, e⟩ := cast
  simp only [castAs, List.mem_map, Prod.mk.injEq]
  constructor
  · rintro ⟨_, inside, rfl, rfl⟩
    exact ⟨rfl, inside⟩
  · rintro ⟨rfl, inside⟩
    exact ⟨e, inside, rfl, rfl⟩

theorem rolesOf_eq_flatMap (nodes : List Node) : rolesOf nodes = nodes.flatMap Node.roles := by
  induction nodes with
  | nil => rfl
  | cons node rest ih => rw [rolesOf, ih, List.flatMap_cons]

theorem rolesOfBranch_eq_flatMap (branch : Option (List Node)) :
    rolesOfBranch branch = (branch.getD []).flatMap Node.roles := by
  cases branch with
  | none => rfl
  | some nodes => exact rolesOf_eq_flatMap nodes

def armCasts : List Arm → List Cast
  | [] => []
  | [arm] => [(.condition, arm.condition)]
  | arm :: next :: outer => (.elseIf, arm.condition) :: armCasts (next :: outer)

/-- The subject of an `{#await}` block and the bindings of its branches read so far. -/
def Awaiting.casts (a : Awaiting) : List Cast :=
  (.promise, a.expression) ::
    castAs .result ((a.onThen.bind (·.1)).toList ++ (a.onCatch.bind (·.1)).toList)

/-- The expressions of an open block in their roles, those in its branches aside. -/
def Construct.casts : Construct → List Cast
  | .element _ _ _ => []
  | .arm start condition earlier => armCasts (⟨start, condition, []⟩ :: earlier)
  | .otherwise arms => armCasts arms
  | .eachBody _ header | .eachFallback _ header _ => header.roles
  | .awaitPending _ e => [(.promise, e)]
  | .awaitBranch done _ binding => done.casts ++ castAs .result binding.toList
  | .key _ e => [(.keyed, e)]

theorem armCasts_nodes (start : Nat) (condition : Expression) (nodes : List Node)
    (earlier : List Arm) : armCasts (⟨start, condition, nodes⟩ :: earlier) =
      armCasts (⟨start, condition, []⟩ :: earlier) := by
  cases earlier <;> rfl

theorem mem_casts_put {a : Awaiting} {branch : AwaitBranch} {binding : Option Expression}
    {nodes : List Node} {cast : Cast} (member : cast ∈ (a.put branch binding nodes).casts) :
    cast ∈ a.casts ∨ cast ∈ castAs .result binding.toList := by
  simp only [Awaiting.casts, List.mem_cons, mem_castAs, List.mem_append] at member ⊢
  cases branch with
  | then_ =>
    rcases member with subject | ⟨role, here | other⟩
    · exact .inl (.inl subject)
    · exact .inr ⟨role, here⟩
    · exact .inl (.inr ⟨role, .inr other⟩)
  | catch_ =>
    rcases member with subject | ⟨role, other | here⟩
    · exact .inl (.inl subject)
    · exact .inl (.inr ⟨role, .inl other⟩)
    · exact .inr ⟨role, here⟩

end TypedSvelte.Markup
