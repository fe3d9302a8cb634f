import TypedSvelte.Component.Transpile
import TypedSvelte.Proofs.Markup.Relocation
import TypedSvelte.Proofs.Outcome
import TypedSvelte.Proofs.Position.Layout

/-!
# Pieces of a moved template

A template whose offsets are moved makes the same pieces with their spans moved
(`nodesPieces_moved`), provided that the names of directives are found at their moved places. It
renders the same slots and mentions the same names. Pieces whose copies keep their text make the
same module, with the source map moved (`ofPieces_moved`).
-/
namespace TypedSvelte

variable {source other : String} {move : Nat → Nat}

def Piece.moved (move : Nat → Nat) : Piece → Piece
  | .fresh text => .fresh text
  | .copied original => .copied (original.moved move)
  | .replaced original text => .replaced (original.moved move) text

def Mapping.moved (move : Nat → Nat) (m : Mapping) : Mapping :=
  { m with original := m.original.moved move }

def SourceMap.moved (move : Nat → Nat) (map : SourceMap) : SourceMap :=
  ⟨map.mappings.map (Mapping.moved move)⟩

/-- What the piece copies from one source has the same text at its moved place in the other. -/
def Piece.KeepsText (source other : String) (move : Nat → Nat) : Piece → Prop
  | .copied original => (original.moved move).text other = original.text source
  | .fresh _ | .replaced _ _ => True

namespace Draft

private theorem emitted_moved {piece : Piece} (keeps : piece.KeepsText source other move) :
    (piece.moved move).emitted other = piece.emitted source := by
  cases piece with
  | fresh text | replaced original text => rfl
  | copied original => exact keeps

theorem mapped?_moved {piece : Piece} (keeps : piece.KeepsText source other move) :
    (piece.moved move).mapped? other = (piece.mapped? source).map (Span.moved move) := by
  unfold Piece.mapped?
  rw [emitted_moved keeps]
  split
  · rfl
  · cases piece <;> rfl

variable {pieces : List Piece} (keep : ∀ piece ∈ pieces, piece.KeepsText source other move)

include keep

private theorem emittedChars_moved :
    emittedChars other (pieces.map (Piece.moved move)) = emittedChars source pieces := by
  unfold emittedChars
  rw [List.flatMap_map, List.flatMap_def, List.flatMap_def]
  exact congrArg List.flatten
    (List.map_congr_left fun piece member => congrArg _ (emitted_moved (keep piece member)))

private theorem laid_moved (offset : Nat) : laid other offset (pieces.map (Piece.moved move)) =
    (laid source offset pieces).map (Mapping.moved move) := by
  induction pieces generalizing offset with
  | nil => rfl
  | cons piece rest ih =>
    obtain ⟨keeps, keepRest⟩ := List.forall_mem_cons.1 keep
    rw [List.map_cons, laid, laid, emitted_moved keeps, mapped?_moved keeps, ih keepRest,
      List.map_append]
    cases piece.mapped? source <;> rfl

theorem ofPieces_moved :
    (ofPieces other (pieces.map (Piece.moved move))).code = (ofPieces source pieces).code ∧
      (ofPieces other (pieces.map (Piece.moved move))).sourceMap =
        (ofPieces source pieces).sourceMap.moved move := by
  constructor
  · apply String.toList_injective
    rw [toList_code_ofPieces, toList_code_ofPieces, emittedChars_moved keep]
  · unfold sourceMap SourceMap.moved
    rw [mappings_ofPieces, mappings_ofPieces, laid_moved keep]

end Draft

namespace Component

open Markup

/-- Wherever a directive stands, its name stands at the same distance from its beginning. -/
theorem exists_directiveName (source : String) (d : Directive) :
    ∃ k, ∀ (other : String) (span : Span), span.text other = d.span.text source →
      directiveName other { d with span } =
        ⟨span.start + k, span.start + (k + d.name.utf8ByteSize)⟩ := by
  unfold directiveName
  cases found : findText? [':'] (d.span.text source).toList with
  | none =>
    refine ⟨0, fun other span same => ?_⟩
    dsimp only
    rw [same, found, Nat.add_zero, Nat.zero_add]
  | some n =>
    refine ⟨byteSize ((d.span.text source).toList.take n) + 1, fun other span same => ?_⟩
    dsimp only
    rw [same, found]
    simp only [Nat.add_assoc]

/-- If the mark is a directive, its name is found at its moved place. -/
def NameMoves (source other : String) (move : Nat → Nat) : Mark → Prop
  | .expression _ => True
  | .directive d => directiveName other { d with span := d.span.moved move } =
    (directiveName source d).moved move

/-- The names of all directives are found at their moved places. -/
def NamesMove (source other : String) (move : Nat → Nat) (marks : List Mark) : Prop :=
  ∀ mark ∈ marks, NameMoves source other move mark

@[simp]
theorem namesMove_cons (mark : Mark) (marks : List Mark) :
    NamesMove source other move (mark :: marks) ↔
      NameMoves source other move mark ∧ NamesMove source other move marks :=
  List.forall_mem_cons

@[simp]
theorem namesMove_append (first second : List Mark) :
    NamesMove source other move (first ++ second) ↔
      NamesMove source other move first ∧ NamesMove source other move second :=
  List.forall_mem_append

/-- Nothing need be found where nothing is moved. -/
theorem namesMove_id (marks : List Mark) : NamesMove source source id marks := by
  intro mark _
  cases mark with
  | expression e => trivial
  | directive d => rfl

section

variable {d : Directive}

@[simp]
theorem statementOf_moved (span : Span) :
    (statementOf span).map (Piece.moved move) = statementOf (span.moved move) := rfl

private theorem valueStatement_moved (d : Directive) :
    valueStatement (d.moved move) = (valueStatement d).map (Piece.moved move) := by
  unfold valueStatement Directive.moved
  dsimp only
  cases d.value <;> rfl

variable (name : NameMoves source other move (.directive d))

include name

private theorem nameStatement_moved : nameStatement other (d.moved move) =
    (nameStatement source d).map (Piece.moved move) := by
  have place : directiveName other (d.moved move) = _ := name
  unfold nameStatement
  rw [place]
  change (if d.name.isEmpty then _ else _) = _
  split <;> rfl

private theorem directivePieces_moved : directivePieces other (d.moved move) =
    (directivePieces source d).map (Piece.moved move) := by
  have kind : (d.moved move).kind = d.kind := rfl
  have hasValue : (d.moved move).value.isSome = d.value.isSome := Option.isSome_map
  unfold directivePieces
  rw [kind, hasValue, nameStatement_moved name, valueStatement_moved]
  cases d.kind with
  | slotProp | on => rfl
  | bind | classToggle | style => exact (apply_ite _ _ _ _).symm
  | action | transition | intro | outro | animate => exact (List.map_append ..).symm

private theorem slotBindingPieces_moved : slotBindingPieces other (d.moved move) =
    (slotBindingPieces source d).map (Piece.moved move) := by
  have place : directiveName other (d.moved move) = _ := name
  unfold slotBindingPieces
  rw [place]
  unfold Directive.moved
  cases d.value <;> rfl

omit name in
private theorem slotBindings_moved (attributes : List Attribute) :
    slotBindings (attributes.map (Attribute.moved move)) =
      (slotBindings attributes).map (Directive.moved move) := by
  unfold slotBindings
  rw [List.filterMap_map, List.map_filterMap]
  congr 1
  funext a
  cases a with
  | directive d =>
    change (if d.kind == .slotProp then some (d.moved move) else none) =
      Option.map (Directive.moved move) (if d.kind == .slotProp then some d else none)
    split <;> rfl
  | plain a | shorthand e | spread e => rfl

omit name in
private theorem attributePieces_moved {a : Attribute} (names : NamesMove source other move a.marks) :
    attributePieces other (a.moved move) = (attributePieces source a).map (Piece.moved move) := by
  cases a with
  | plain a =>
    change (a.value.map _).flatMap _ = (a.value.flatMap _).map _
    rw [List.flatMap_map, List.map_flatMap]
    congr 1
    funext part
    cases part <;> rfl
  | shorthand e | spread e => rfl
  | directive d => exact directivePieces_moved (names _ List.mem_cons_self)

end

/-- What maps over each part maps over all of them. -/
theorem flatMap_moved {α : Type} {f g : α → List Piece} {step : α → α} {xs : List α}
    (each : ∀ x ∈ xs, f (step x) = (g x).map (Piece.moved move)) :
    (xs.map step).flatMap f = (xs.flatMap g).map (Piece.moved move) := by
  rw [List.flatMap_map, List.map_flatMap, List.flatMap_def, List.flatMap_def]
  exact congrArg List.flatten (List.map_congr_left each)

private theorem elementPieces_moved {head : ElementHead} {children : List Piece}
    (names : NamesMove source other move (head.attributes.flatMap Attribute.marks)) :
    elementPieces other (head.moved move) (children.map (Piece.moved move)) =
      (elementPieces source head children).map (Piece.moved move) := by
  have each (a : Attribute) (member : a ∈ head.attributes) :
      NamesMove source other move a.marks :=
    fun mark inMarks => names mark (List.mem_flatMap.2 ⟨a, member, inMarks⟩)
  have attributes := flatMap_moved fun a member => attributePieces_moved (each a member)
  have bindings : ((slotBindings head.attributes).map (Directive.moved move)).flatMap
      (slotBindingPieces other) =
        ((slotBindings head.attributes).flatMap (slotBindingPieces source)).map
          (Piece.moved move) := by
    apply flatMap_moved
    intro d member
    obtain ⟨a, inAttributes, isBinding⟩ := List.mem_filterMap.1 member
    cases a with
    | directive d' =>
      dsimp only at isBinding
      split at isBinding
      · cases Option.some.inj isBinding
        exact slotBindingPieces_moved (each _ inAttributes _ List.mem_cons_self)
      · cases isBinding
    | _ => cases isBinding
  have moved : (head.moved move).attributes = head.attributes.map (Attribute.moved move) := rfl
  unfold elementPieces
  rw [moved, attributes, slotBindings_moved, List.map_append]
  congr 1
  cases here : slotBindings head.attributes with
  | nil => rfl
  | cons d rest =>
    rw [here] at bindings
    simp only [List.map_cons] at bindings ⊢
    rw [bindings]
    simp [Piece.moved]

private theorem tagPieces_moved (kind : TagKind) (expression : Option Expression) :
    tagPieces kind (expression.map (Expression.moved move)) =
      (tagPieces kind expression).map (Piece.moved move) := by
  cases expression with
  | none => rfl
  | some e => cases kind <;> rfl

private theorem eachPieces_moved (head : EachHead) :
    eachPieces (head.moved move) = (eachPieces head).map (Piece.moved move) := by
  obtain ⟨span, subject, context, index, key⟩ := head
  cases context <;> cases index <;> cases key <;> rfl

private theorem thenPieces_moved (head : AwaitHead) :
    thenPieces (head.moved move) = (thenPieces head).map (Piece.moved move) := by
  obtain ⟨span, subject, thenBinding, catchBinding⟩ := head
  cases thenBinding <;> rfl

private theorem catchPieces_moved (head : AwaitHead) :
    catchPieces (head.moved move) = (catchPieces head).map (Piece.moved move) := by
  obtain ⟨span, subject, thenBinding, catchBinding⟩ := head
  cases catchBinding <;> rfl

@[simp]
theorem moved_fresh (text : String) : (Piece.fresh text).moved move = .fresh text := rfl

@[simp]
theorem conditionPieces_moved (condition : Expression) :
    (conditionPieces condition).map (Piece.moved move) = conditionPieces (condition.moved move) :=
  rfl

section

variable {hole : Nat}

mutual

private theorem nodePieces_moved : ∀ node : Node, NamesMove source other move node.marks →
    nodePieces other (node.moved move hole) = (nodePieces source node).map (Piece.moved move)
  | .element head children, names => by
    obtain ⟨ofHead, ofChildren⟩ := (namesMove_append _ _).1 names
    rw [Node.moved, nodePieces, nodePieces, nodesPieces_moved children ofChildren]
    exact elementPieces_moved ofHead
  | .text _, _ | .comment _, _ | .mustache _ _, _ => rfl
  | .tag _ kind e, _ => tagPieces_moved kind e
  | .ifBlock _ condition consequent alternate, names => by
    simp only [Node.marks, List.cons_append, namesMove_cons, namesMove_append] at names
    obtain ⟨_, ofConsequent, ofAlternate⟩ := names
    simp [Node.moved, nodePieces, nodesPieces_moved consequent ofConsequent,
      alternatePieces_moved alternate ofAlternate]
  | .each head body fallback, names => by
    simp only [Node.marks, namesMove_append] at names
    obtain ⟨⟨_, ofBody⟩, ofFallback⟩ := names
    have rest : branchPieces other [] (movedBranch move hole fallback) = _ :=
      branchPieces_moved [] fallback ofFallback
    simp [Node.moved, nodePieces, eachPieces_moved, nodesPieces_moved body ofBody, rest]
  | .await head pending onThen onCatch, names => by
    simp only [Node.marks, namesMove_append] at names
    obtain ⟨⟨⟨_, ofPending⟩, ofThen⟩, ofCatch⟩ := names
    have subject : (head.moved move).expression.span = head.expression.span.moved move := rfl
    have first := branchPieces_moved (thenPieces head) onThen ofThen
    have second := branchPieces_moved (catchPieces head) onCatch ofCatch
    rw [← thenPieces_moved] at first
    rw [← catchPieces_moved] at second
    simp [Node.moved, nodePieces, subject, nodesPieces_moved pending ofPending, first, second]
  | .key _ e body, names => by
    obtain ⟨_, ofBody⟩ := (namesMove_cons _ _).1 names
    simp [Node.moved, nodePieces, nodesPieces_moved body ofBody, Expression.moved]

theorem nodesPieces_moved : ∀ nodes : List Node, NamesMove source other move (marksOf nodes) →
    nodesPieces other (movedNodes move hole nodes) =
      (nodesPieces source nodes).map (Piece.moved move)
  | [], _ => rfl
  | node :: rest, names => by
    obtain ⟨ofNode, ofRest⟩ := (namesMove_append _ _).1 names
    rw [movedNodes, nodesPieces, nodesPieces, nodePieces_moved node ofNode,
      nodesPieces_moved rest ofRest, List.map_append]

private theorem branchPieces_moved (declared : List Piece) : ∀ branch : Option (List Node),
    NamesMove source other move (marksOfBranch branch) →
    branchPieces other (declared.map (Piece.moved move)) (movedBranch move hole branch) =
      (branchPieces source declared branch).map (Piece.moved move)
  | none, _ => rfl
  | some nodes, names => by
    simp [movedBranch, branchPieces, nodesPieces_moved nodes names]

private theorem alternatePieces_moved : ∀ alternate : Alternate,
    NamesMove source other move alternate.marks →
    alternatePieces other (alternate.moved move hole) =
      (alternatePieces source alternate).map (Piece.moved move)
  | .absent, _ => rfl
  | .otherwise nodes, names => by
    simp [Alternate.moved, alternatePieces, nodesPieces_moved nodes names]
  | .elseIf _ condition consequent alternate, names => by
    simp only [Alternate.marks, List.cons_append, namesMove_cons, namesMove_append] at names
    obtain ⟨_, ofConsequent, ofAlternate⟩ := names
    simp [Alternate.moved, alternatePieces, nodesPieces_moved consequent ofConsequent,
      alternatePieces_moved alternate ofAlternate]

end

mutual

private theorem elements_moved : ∀ node : Node,
    (node.moved move hole).elements = node.elements.map (ElementHead.moved move)
  | .element head children => by
    rw [Node.moved, Node.elements, Node.elements, elementsOf_moved children, List.map_cons]
  | .text _ | .comment _ | .mustache _ _ | .tag _ _ _ => rfl
  | .ifBlock _ _ consequent alternate => by
    rw [Node.moved, Node.elements, Node.elements, elementsOf_moved consequent,
      elements_moved_alternate alternate, List.map_append]
  | .each _ body fallback => by
    rw [Node.moved, Node.elements, Node.elements, elementsOf_moved body,
      elements_moved_branch fallback, List.map_append]
  | .await _ pending onThen onCatch => by
    rw [Node.moved, Node.elements, Node.elements, elementsOf_moved pending,
      elements_moved_branch onThen, elements_moved_branch onCatch, List.map_append,
      List.map_append]
  | .key _ _ body => elementsOf_moved body

theorem elementsOf_moved : ∀ nodes : List Node,
    elementsOf (movedNodes move hole nodes) = (elementsOf nodes).map (ElementHead.moved move)
  | [] => rfl
  | node :: rest => by
    rw [movedNodes, elementsOf, elementsOf, elements_moved node, elementsOf_moved rest,
      List.map_append]

private theorem elements_moved_branch : ∀ branch : Option (List Node),
    elementsOfBranch (movedBranch move hole branch) =
      (elementsOfBranch branch).map (ElementHead.moved move)
  | none => rfl
  | some nodes => elementsOf_moved nodes

private theorem elements_moved_alternate : ∀ alternate : Alternate,
    (alternate.moved move hole).elements = alternate.elements.map (ElementHead.moved move)
  | .absent => rfl
  | .otherwise nodes => elementsOf_moved nodes
  | .elseIf _ _ consequent alternate => by
    rw [Alternate.moved, Alternate.elements, Alternate.elements, elementsOf_moved consequent,
      elements_moved_alternate alternate, List.map_append]

end

private theorem expressions_moved_attribute (a : Attribute) :
    (a.moved move).expressions = a.expressions.map (Expression.moved move) := by
  cases a with
  | plain a =>
    change (a.value.map _).filterMap _ = (a.value.filterMap _).map _
    rw [List.filterMap_map, List.map_filterMap]
    congr 1
    funext part
    cases part <;> rfl
  | shorthand e | spread e => rfl
  | directive d =>
    change (d.value.map _).toList = d.value.toList.map _
    cases d.value <;> rfl

@[simp]
theorem toList_map_moved (e? : Option Expression) :
    (e?.map (Expression.moved move)).toList = e?.toList.map (Expression.moved move) := by
  cases e? <;> rfl

mutual

private theorem expressions_moved : ∀ node : Node,
    (node.moved move hole).expressions = node.expressions.map (Expression.moved move)
  | .element head children => by
    have attributes : (head.moved move).attributes.flatMap Attribute.expressions =
        (head.attributes.flatMap Attribute.expressions).map (Expression.moved move) := by
      change (head.attributes.map _).flatMap _ = _
      rw [List.flatMap_map, List.map_flatMap]
      simp only [expressions_moved_attribute]
    rw [Node.moved, Node.expressions, Node.expressions, attributes, expressionsOf_moved children,
      List.map_append]
  | .text _ | .comment _ | .mustache _ _ => rfl
  | .tag _ _ e => toList_map_moved e
  | .ifBlock _ _ consequent alternate => by
    simp [Node.moved, Node.expressions, expressionsOf_moved consequent,
      expressions_moved_alternate alternate]
  | .each head body fallback => by
    simp [Node.moved, Node.expressions, EachHead.moved, expressionsOf_moved body,
      expressions_moved_branch fallback]
  | .await head pending onThen onCatch => by
    simp [Node.moved, Node.expressions, AwaitHead.moved, expressionsOf_moved pending,
      expressions_moved_branch onThen, expressions_moved_branch onCatch]
  | .key _ e body => congrArg (e.moved move :: ·) (expressionsOf_moved body)

private theorem expressionsOf_moved : ∀ nodes : List Node,
    expressionsOf (movedNodes move hole nodes) = (expressionsOf nodes).map (Expression.moved move)
  | [] => rfl
  | node :: rest => by
    rw [movedNodes, expressionsOf, expressionsOf, expressions_moved node, expressionsOf_moved rest,
      List.map_append]

private theorem expressions_moved_branch : ∀ branch : Option (List Node),
    expressionsOfBranch (movedBranch move hole branch) =
      (expressionsOfBranch branch).map (Expression.moved move)
  | none => rfl
  | some nodes => expressionsOf_moved nodes

private theorem expressions_moved_alternate : ∀ alternate : Alternate,
    (alternate.moved move hole).expressions = alternate.expressions.map (Expression.moved move)
  | .absent => rfl
  | .otherwise nodes => expressionsOf_moved nodes
  | .elseIf _ _ consequent alternate => by
    simp [Alternate.moved, Alternate.expressions, expressionsOf_moved consequent,
      expressions_moved_alternate alternate]

end

/-- A name is mentioned wherever the expressions stand. -/
theorem templateMentions_moved (name : String) (nodes : List Node) :
    templateMentions name (movedNodes move hole nodes) = templateMentions name nodes := by
  unfold templateMentions
  rw [expressionsOf_moved, List.any_map]
  rfl

end

private theorem templatePart_moved (part : ValuePart) :
    templatePart (part.moved move) = templatePart part := by
  cases part <;> rfl

private theorem attributeValue_moved (a : PlainAttribute) :
    attributeValue (a.moved move) = attributeValue a := by
  have literal (parts : List ValuePart) :
      templateLiteral (parts.map (ValuePart.moved move)) = templateLiteral parts := by
    unfold templateLiteral
    rw [List.flatMap_map]
    simp only [templatePart_moved]
  have value : (a.moved move).value = a.value.map (ValuePart.moved move) := rfl
  unfold attributeValue
  rw [staticValue?_moved, value]
  cases a.staticValue? with
  | some text => rcases a.value with _ | ⟨t | e, _ | ⟨second, rest⟩⟩ <;> rfl
  | none =>
    rcases a.value with _ | ⟨t | e, _ | ⟨second, rest⟩⟩
    · rfl
    · exact literal [.text t]
    · exact literal (.text t :: second :: rest)
    · rfl
    · exact literal (.expression e :: second :: rest)

/-- An attribute that a slot takes up is taken up wherever it stands. -/
theorem slot_add_moved {slot next : Slot} {a : Attribute} (added : slot.add a = .ok next) :
    slot.add (a.moved move) = .ok next := by
  cases a with
  | plain a =>
    have name : (a.moved move).name = a.name := rfl
    unfold Slot.add Attribute.moved at *
    dsimp only at added ⊢
    rw [name, staticValue?_moved, attributeValue_moved]
    split at added
    · rename_i isName
      rw [if_pos isName]
      split at added
      · exact added
      · cases added
    · rename_i isOther
      rw [if_neg isOther]
      exact added
  | shorthand e => exact added
  | spread e => cases added
  | directive d => exact added

/-- A fold over moved items succeeds where one over the items does, if each step does. -/
theorem foldlM_moved {α β ε : Type} {step step' : β → α → Except ε β} {moved : α → α}
    (each : ∀ b a next, step b a = .ok next → step' b (moved a) = .ok next) {items : List α}
    {b last : β} (folded : items.foldlM step b = .ok last) :
    (items.map moved).foldlM step' b = .ok last := by
  induction items generalizing b with
  | nil => exact folded
  | cons a rest ih =>
    rw [List.foldlM_cons] at folded
    obtain ⟨next, stepped, folded⟩ := exists_of_bind_ok folded
    rw [List.map_cons, List.foldlM_cons, each b a next stepped]
    exact ih folded

theorem slotsOf_moved {nodes others : List Node} {slots : Slots}
    (same : elementsOf others = (elementsOf nodes).map (ElementHead.moved move))
    (read : slotsOf nodes = .ok slots) : slotsOf others = .ok slots := by
  have elements : slotElements others = (slotElements nodes).map (ElementHead.moved move) := by
    unfold slotElements
    rw [same, List.filter_map]
    rfl
  unfold slotsOf at read ⊢
  rw [elements]
  refine foldlM_moved (fun found head next step => ?_) read
  obtain ⟨slot, ofHead, put⟩ := exists_of_bind_ok step
  unfold Slot.ofElement at ofHead
  have again : Slot.ofElement (head.moved move) = .ok slot :=
    foldlM_moved (fun _ _ _ added => slot_add_moved added) ofHead
  rw [again]
  exact put

end Component

end TypedSvelte
