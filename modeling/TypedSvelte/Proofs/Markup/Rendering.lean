import TypedSvelte.Markup.Tag
import TypedSvelte.Markup.Opening

/-!
# Rendering trees

A `Forest` is the part of markup that has one canonical text: elements with plain attributes,
mustaches and blocks whose expressions are identifiers, and texts between them. Its types allow nothing
else: names and texts carry the proof that they are well formed, and two texts never stand side by
side, since a text stands before a tree or ends its forest. `Forest.render` is the canonical
text and `Forest.nodes` are the nodes that reading it gives, up to spans. Nothing of a forest is lost
in its nodes (`Forest.eq_of_nodes`).
-/
namespace TypedSvelte.Markup

def isWord : List Char → Bool
  | [] => false
  | c :: cs => isIdentStart c && cs.all isIdentChar

def headerWords : List String := ["as", "if", "then", "catch"]

/-- An identifier other than the words that headers look for. -/
def isIdentifier (cs : List Char) : Bool := isWord cs && !headerWords.contains (String.ofList cs)

/-- The name of an element that has children and is no script or style: lower-case letters and digits
after a letter. -/
def isTagName : List Char → Bool
  | [] => false
  | c :: cs => c.isLower && cs.all (fun d => d.isLower || d.isDigit) &&
    !Reading.isVoid (String.ofList (c :: cs)) &&
    String.ofList (c :: cs) != "script" && String.ofList (c :: cs) != "style"

/-- The name begins with the word of a directive and a colon. -/
def isDirectiveName (cs : List Char) : Bool :=
  cs.contains ':' && (DirectiveKind.ofWord? (String.ofList (cs.takeWhile (· != ':')))).isSome

def isAttributeName : List Char → Bool
  | [] => false
  | c :: cs => (c :: cs).all (fun d => !Scan.endsAttributeName d) && c != '{' &&
    !isDirectiveName (c :: cs)

/-- A text that begins no tag, mustache or block. -/
def isPlainText (cs : List Char) : Bool := !cs.isEmpty && cs.all fun c => c != '<' && c != '{'

def isValueText (cs : List Char) : Bool := !cs.isEmpty && cs.all fun c => c != '"' && c != '{'

abbrev Ident := { cs : List Char // isIdentifier cs = true }

abbrev TagName := { cs : List Char // isTagName cs = true }

abbrev AttributeName := { cs : List Char // isAttributeName cs = true }

abbrev PlainText := { cs : List Char // isPlainText cs = true }

abbrev ValueText := { cs : List Char // isValueText cs = true }

/-- The value of an attribute, `"text"` or `{identifier}`. -/
inductive TreeValue where
  | text (value : ValueText)
  | expression (value : Ident)

/-- An attribute `name=value`. -/
structure TreeAttribute where
  name : AttributeName
  value : TreeValue

mutual

/-- An element, a mustache or a block. -/
inductive Tree where
  | element (name : TagName) (attributes : List TreeAttribute) (children : Forest)
  | mustache (e : Ident)
  | ifBlock (condition : Ident) (consequent : Forest) (alternate : Alternative)
  | each (items context : Ident) (index key : Option Ident) (body : Forest) (fallback : Fallback)
  | await (subject : Ident) (pending : Forest) (onThen onCatch : Branch)
  | key (e : Ident) (body : Forest)

/-- Trees side by side. A text stands before a tree or at the end. -/
inductive Forest where
  | nil
  | last (text : PlainText)
  | cons (before : Option PlainText) (tree : Tree) (rest : Forest)

/-- What follows the consequent of a condition. -/
inductive Alternative where
  | absent
  | otherwise (nodes : Forest)
  | elseIf (condition : Ident) (consequent : Forest) (alternate : Alternative)

/-- What an `{#each}` block shows for no items. -/
inductive Fallback where
  | absent
  | present (nodes : Forest)

/-- A branch of an `{#await}` block. -/
inductive Branch where
  | absent
  | present (binding : Option Ident) (nodes : Forest)

end

def TreeValue.render : TreeValue → List Char
  | .text value => '"' :: value.val ++ ['"']
  | .expression value => '{' :: value.val ++ ['}']

/-- The canonical text of an attribute, with a space before it. -/
def TreeAttribute.render (a : TreeAttribute) : List Char :=
  ' ' :: a.name.val ++ '=' :: a.value.render

/-- The text of an optional identifier with what stands before and behind it. -/
def renderOptional (before : String) (e : Option Ident) (behind : String) : List Char :=
  match e with
  | none => []
  | some e => before.toList ++ e.val ++ behind.toList

/-- The header of an `{#each}` block. -/
def renderEachHeader (items context : Ident) (index key : Option Ident) : List Char :=
  items.val ++ " as ".toList ++ context.val ++ renderOptional ", " index "" ++
    renderOptional " (" key ")"

mutual

def Tree.render : Tree → List Char
  | .element name attributes children =>
    '<' :: name.val ++ attributes.flatMap TreeAttribute.render ++ '>' :: children.render ++
      "</".toList ++ name.val ++ ['>']
  | .mustache e => '{' :: e.val ++ ['}']
  | .ifBlock condition consequent alternate =>
    "\x7b#if ".toList ++ condition.val ++ '}' :: consequent.render ++ alternate.render ++
      "\x7b/if\x7d".toList
  | .each items context index key body fallback =>
    "\x7b#each ".toList ++ renderEachHeader items context index key ++ '}' :: body.render ++
      fallback.render ++ "\x7b/each\x7d".toList
  | .await subject pending onThen onCatch =>
    "\x7b#await ".toList ++ subject.val ++ '}' :: pending.render ++ onThen.render .then_ ++
      onCatch.render .catch_ ++ "\x7b/await\x7d".toList
  | .key e body => "\x7b#key ".toList ++ e.val ++ '}' :: body.render ++ "\x7b/key\x7d".toList

def Forest.render : Forest → List Char
  | .nil => []
  | .last text => text.val
  | .cons none tree rest => tree.render ++ rest.render
  | .cons (some text) tree rest => text.val ++ tree.render ++ rest.render

/-- The canonical text of what follows the consequent of a condition. -/
def Alternative.render : Alternative → List Char
  | .absent => []
  | .otherwise nodes => "\x7b:else\x7d".toList ++ nodes.render
  | .elseIf condition consequent alternate =>
    "\x7b:else if ".toList ++ condition.val ++ '}' :: consequent.render ++ alternate.render

/-- The canonical text of what an `{#each}` block shows for no items. -/
def Fallback.render : Fallback → List Char
  | .absent => []
  | .present nodes => "\x7b:else\x7d".toList ++ nodes.render

def Branch.render (word : AwaitBranch) : Branch → List Char
  | .absent => []
  | .present binding nodes =>
    "\x7b:".toList ++ word.word.toList ++ renderOptional " " binding "" ++ '}' :: nodes.render

end

def Expression.bare (e : Expression) : Expression := ⟨default, e.text⟩

def RawText.bare (t : RawText) : RawText := ⟨default, t.data⟩

def ValuePart.bare : ValuePart → ValuePart
  | .text t => .text t.bare
  | .expression e => .expression e.bare

def Attribute.bare : Attribute → Attribute
  | .plain a => .plain ⟨default, a.name, a.value.map ValuePart.bare⟩
  | .shorthand e => .shorthand e.bare
  | .spread e => .spread e.bare
  | .directive d => .directive { d with span := default, value := d.value.map Expression.bare }

def ElementHead.bare (head : ElementHead) : ElementHead :=
  { head with span := default, attributes := head.attributes.map Attribute.bare }

/-- The header of an `{#each}` block without its spans. -/
def EachHead.bare (head : EachHead) : EachHead :=
  ⟨default, head.expression.bare, head.context.map Expression.bare,
    head.index.map Expression.bare, head.key.map Expression.bare⟩

/-- The header of an `{#await}` block without its spans. -/
def AwaitHead.bare (head : AwaitHead) : AwaitHead :=
  ⟨default, head.expression.bare, head.thenBinding.map Expression.bare,
    head.catchBinding.map Expression.bare⟩

mutual

def Node.bare : Node → Node
  | .element head children => .element head.bare (bareNodes children)
  | .text t => .text t.bare
  | .comment c => .comment c.bare
  | .mustache _ e => .mustache default e.bare
  | .tag _ kind e => .tag default kind (e.map Expression.bare)
  | .ifBlock _ condition consequent alternate =>
    .ifBlock default condition.bare (bareNodes consequent) alternate.bare
  | .each head body fallback => .each head.bare (bareNodes body) (bareBranch fallback)
  | .await head pending onThen onCatch =>
    .await head.bare (bareNodes pending) (bareBranch onThen) (bareBranch onCatch)
  | .key _ e body => .key default e.bare (bareNodes body)

def bareNodes : List Node → List Node
  | [] => []
  | node :: rest => node.bare :: bareNodes rest

/-- The nodes of a branch without the spans in them. -/
def bareBranch : Option (List Node) → Option (List Node)
  | none => none
  | some nodes => some (bareNodes nodes)

def Alternate.bare : Alternate → Alternate
  | .absent => .absent
  | .otherwise nodes => .otherwise (bareNodes nodes)
  | .elseIf _ condition consequent alternate =>
    .elseIf default condition.bare (bareNodes consequent) alternate.bare

end

def Arm.bare (arm : Arm) : Arm := ⟨0, arm.condition.bare, bareNodes arm.consequent⟩

def Awaiting.bare (a : Awaiting) : Awaiting :=
  let bareBranch (branch : Option Expression × List Node) : Option Expression × List Node :=
    (branch.1.map Expression.bare, bareNodes branch.2)
  ⟨0, a.expression.bare, bareNodes a.pending, a.onThen.map bareBranch, a.onCatch.map bareBranch⟩

def Ident.expression (e : Ident) : Expression := ⟨default, String.ofList e.val⟩

def textNode (text : PlainText) : Node := .text ⟨default, String.ofList text.val⟩

def TreeValue.part : TreeValue → ValuePart
  | .text value => .text ⟨default, String.ofList value.val⟩
  | .expression value => .expression (Ident.expression value)

def TreeAttribute.attribute (a : TreeAttribute) : Attribute :=
  .plain ⟨default, String.ofList a.name.val, [a.value.part]⟩

def Branch.binding : Branch → Option Expression
  | .absent => none
  | .present binding _ => binding.map Ident.expression

mutual

def Tree.node : Tree → Node
  | .element name attributes children =>
    .element ⟨default, String.ofList name.val, ElementKind.ofName (String.ofList name.val),
      attributes.map TreeAttribute.attribute, false⟩ children.nodes
  | .mustache e => .mustache default (Ident.expression e)
  | .ifBlock condition consequent alternate =>
    .ifBlock default (Ident.expression condition) consequent.nodes alternate.alternate
  | .each items context index key body fallback =>
    .each ⟨default, Ident.expression items, some (Ident.expression context),
      index.map Ident.expression, key.map Ident.expression⟩ body.nodes fallback.nodes
  | .await subject pending onThen onCatch =>
    .await ⟨default, Ident.expression subject, onThen.binding, onCatch.binding⟩ pending.nodes
      onThen.nodes onCatch.nodes
  | .key e body => .key default (Ident.expression e) body.nodes

def Forest.nodes : Forest → List Node
  | .nil => []
  | .last text => [textNode text]
  | .cons none tree rest => tree.node :: rest.nodes
  | .cons (some text) tree rest => textNode text :: tree.node :: rest.nodes

def Alternative.alternate : Alternative → Alternate
  | .absent => .absent
  | .otherwise nodes => .otherwise nodes.nodes
  | .elseIf condition consequent alternate =>
    .elseIf default (Ident.expression condition) consequent.nodes alternate.alternate

/-- The nodes that are read, if any. -/
def Fallback.nodes : Fallback → Option (List Node)
  | .absent => none
  | .present nodes => some nodes.nodes

/-- The nodes that are read, if any. -/
def Branch.nodes : Branch → Option (List Node)
  | .absent => none
  | .present _ nodes => some nodes.nodes

end

private theorem ofList_injective {cs ds : List Char} (same : String.ofList cs = String.ofList ds) : cs = ds := by
  have chars := congrArg String.toList same
  rwa [String.toList_ofList, String.toList_ofList] at chars

private theorem Ident.eq_of_expression {e f : Ident} (same : Ident.expression e = Ident.expression f) :
    e = f :=
  Subtype.ext (ofList_injective (congrArg Expression.text same))

private theorem Ident.eq_of_map {e f : Option Ident}
    (same : e.map Ident.expression = f.map Ident.expression) : e = f :=
  Option.map_injective (fun _ _ => Ident.eq_of_expression) same

private theorem PlainText.eq_of_node {t u : PlainText} (same : textNode t = textNode u) : t = u :=
  Subtype.ext (ofList_injective (congrArg RawText.data (Node.text.inj same)))

private theorem TreeValue.eq_of_part {v w : TreeValue} (same : v.part = w.part) : v = w := by
  cases v with
  | text v =>
    cases w with
    | text w =>
      have chars := congrArg RawText.data (ValuePart.text.inj same)
      exact congrArg TreeValue.text (Subtype.ext (ofList_injective chars))
    | expression => cases same
  | expression v =>
    cases w with
    | text => cases same
    | expression w =>
      exact congrArg TreeValue.expression (Ident.eq_of_expression (ValuePart.expression.inj same))

private theorem TreeAttribute.eq_of_attribute {a b : TreeAttribute} (same : a.attribute = b.attribute) :
    a = b := by
  obtain ⟨_, names, values⟩ := PlainAttribute.mk.inj (Attribute.plain.inj same)
  have name : a.name = b.name := Subtype.ext (ofList_injective names)
  have value : a.value = b.value := TreeValue.eq_of_part (List.cons.inj values).1
  cases a
  cases b
  cases name
  cases value
  rfl

private theorem Tree.node_ne_text (t : Tree) (text : PlainText) : t.node ≠ textNode text := by
  cases t <;> exact nofun

mutual

private theorem Tree.eq_of_node : ∀ t u : Tree, t.node = u.node → t = u
  | .element name attributes children, u, same => by
    cases u with
    | element other otherAttributes otherChildren =>
      obtain ⟨heads, nodes⟩ := Node.element.inj same
      obtain ⟨_, names, _, read, _⟩ := ElementHead.mk.inj heads
      rw [Subtype.ext (ofList_injective names), children.eq_of_nodes otherChildren nodes,
        (List.map_inj_right fun _ _ => TreeAttribute.eq_of_attribute).1 read]
    | _ => cases same
  | .mustache e, u, same => by
    cases u with
    | mustache f => rw [Ident.eq_of_expression (Node.mustache.inj same).2]
    | _ => cases same
  | .ifBlock condition consequent alternate, u, same => by
    cases u with
    | ifBlock otherCondition otherConsequent otherAlternate =>
      obtain ⟨_, conditions, consequents, alternates⟩ := Node.ifBlock.inj same
      rw [Ident.eq_of_expression conditions, consequent.eq_of_nodes otherConsequent consequents,
        alternate.eq_of_alternate otherAlternate alternates]
    | _ => cases same
  | .each items context index key body fallback, u, same => by
    cases u with
    | each otherItems otherContext otherIndex otherKey otherBody otherFallback =>
      obtain ⟨heads, bodies, fallbacks⟩ := Node.each.inj same
      obtain ⟨_, expressions, contexts, indices, keys⟩ := EachHead.mk.inj heads
      rw [Ident.eq_of_expression expressions, Ident.eq_of_expression (Option.some.inj contexts),
        Ident.eq_of_map indices, Ident.eq_of_map keys, body.eq_of_nodes otherBody bodies,
        fallback.eq_of_nodes otherFallback fallbacks]
    | _ => cases same
  | .await subject pending onThen onCatch, u, same => by
    cases u with
    | await otherSubject otherPending otherThen otherCatch =>
      obtain ⟨heads, pendings, thens, catches⟩ := Node.await.inj same
      obtain ⟨_, subjects, thenBindings, catchBindings⟩ := AwaitHead.mk.inj heads
      rw [Ident.eq_of_expression subjects, pending.eq_of_nodes otherPending pendings,
        onThen.eq_of_nodes otherThen thenBindings thens,
        onCatch.eq_of_nodes otherCatch catchBindings catches]
    | _ => cases same
  | .key e body, u, same => by
    cases u with
    | key f other =>
      obtain ⟨_, expressions, bodies⟩ := Node.key.inj same
      rw [Ident.eq_of_expression expressions, body.eq_of_nodes other bodies]
    | _ => cases same

theorem Forest.eq_of_nodes : ∀ f g : Forest, f.nodes = g.nodes → f = g
  | .nil, g, same => by
    cases g with
    | nil => rfl
    | last => cases same
    | cons before => cases before <;> cases same
  | .last text, g, same => by
    cases g with
    | nil => cases same
    | last other => rw [PlainText.eq_of_node (List.cons.inj same).1]
    | cons before tree rest =>
      cases before with
      | none => exact absurd (List.cons.inj same).1.symm (tree.node_ne_text text)
      | some => cases (List.cons.inj same).2
  | .cons none tree rest, g, same => by
    cases g with
    | nil => cases same
    | last other => exact absurd (List.cons.inj same).1 (tree.node_ne_text other)
    | cons before otherTree otherRest =>
      cases before with
      | none =>
        obtain ⟨first, later⟩ := List.cons.inj same
        rw [tree.eq_of_node otherTree first, rest.eq_of_nodes otherRest later]
      | some other => exact absurd (List.cons.inj same).1 (tree.node_ne_text other)
  | .cons (some text) tree rest, g, same => by
    cases g with
    | nil => cases same
    | last => cases (List.cons.inj same).2
    | cons before otherTree otherRest =>
      cases before with
      | none => exact absurd (List.cons.inj same).1.symm (otherTree.node_ne_text text)
      | some other =>
        obtain ⟨first, behind⟩ := List.cons.inj same
        obtain ⟨second, later⟩ := List.cons.inj behind
        rw [PlainText.eq_of_node first, tree.eq_of_node otherTree second,
          rest.eq_of_nodes otherRest later]

private theorem Alternative.eq_of_alternate : ∀ a b : Alternative, a.alternate = b.alternate → a = b
  | .absent, b, same => by
    cases b with
    | absent => rfl
    | _ => cases same
  | .otherwise nodes, b, same => by
    cases b with
    | otherwise other => rw [nodes.eq_of_nodes other (Alternate.otherwise.inj same)]
    | _ => cases same
  | .elseIf condition consequent alternate, b, same => by
    cases b with
    | elseIf otherCondition otherConsequent otherAlternate =>
      obtain ⟨_, conditions, consequents, alternates⟩ := Alternate.elseIf.inj same
      rw [Ident.eq_of_expression conditions, consequent.eq_of_nodes otherConsequent consequents,
        alternate.eq_of_alternate otherAlternate alternates]
    | _ => cases same

theorem Fallback.eq_of_nodes : ∀ a b : Fallback, a.nodes = b.nodes → a = b
  | .absent, b, same => by
    cases b with
    | absent => rfl
    | present => cases same
  | .present nodes, b, same => by
    cases b with
    | absent => cases same
    | present other => rw [nodes.eq_of_nodes other (Option.some.inj same)]

theorem Branch.eq_of_nodes : ∀ a b : Branch, a.binding = b.binding → a.nodes = b.nodes → a = b
  | .absent, b, _, same => by
    cases b with
    | absent => rfl
    | present => cases same
  | .present binding nodes, b, bindings, same => by
    cases b with
    | absent => cases same
    | present other otherNodes =>
      rw [Ident.eq_of_map bindings, nodes.eq_of_nodes otherNodes (Option.some.inj same)]

end

end TypedSvelte.Markup
