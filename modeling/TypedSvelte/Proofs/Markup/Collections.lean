import TypedSvelte.Proofs.Markup.PlacedDocuments
import TypedSvelte.Proofs.Markup.Roles
import TypedSvelte.Proofs.Markup.SwappedSteps

/-!
# Collections

What is collected from the nodes of a template, such as its texts, the attributes of its elements or
its expressions, can be collected while the template is being read (`Collection.ofReading`). A step
adds what its opening tag, its text or its comment has, and what it has of an expression that it tells
from the source in a role (`Reading.Tells`), and nothing else (`Collection.mem_step`).
-/
namespace TypedSvelte.Markup

/-- A way to collect from nodes at any depth: from attributes, from expressions in their roles, and from
texts and comments. -/
structure Collection (α : Type) where
  ofNode : Node → List α
  ofAlternate : Alternate → List α
  ofAttribute : Attribute → List α
  ofCast : Cast → List α
  element : ∀ head children, ofNode (.element head children) =
    head.attributes.flatMap ofAttribute ++ children.flatMap ofNode
  mustache : ∀ span e, ofNode (.mustache span e) = ofCast (.mustache, e)
  tag : ∀ span kind e, ofNode (.tag span kind e) = (castAs (.tag kind) e.toList).flatMap ofCast
  ifBlock : ∀ span condition consequent alternate,
    ofNode (.ifBlock span condition consequent alternate) =
      ofCast (.condition, condition) ++ consequent.flatMap ofNode ++ ofAlternate alternate
  each : ∀ head body fallback, ofNode (.each head body fallback) =
    head.header.roles.flatMap ofCast ++ body.flatMap ofNode ++ (fallback.getD []).flatMap ofNode
  await : ∀ head pending onThen onCatch, ofNode (.await head pending onThen onCatch) =
    ((.promise, head.expression) ::
      castAs .result (head.thenBinding.toList ++ head.catchBinding.toList)).flatMap ofCast ++
      (pending.flatMap ofNode ++ (onThen.getD []).flatMap ofNode ++ (onCatch.getD []).flatMap ofNode)
  key : ∀ span e body, ofNode (.key span e body) = ofCast (.keyed, e) ++ body.flatMap ofNode
  absent : ofAlternate .absent = []
  otherwise : ∀ nodes, ofAlternate (.otherwise nodes) = nodes.flatMap ofNode
  elseIf : ∀ span condition consequent alternate,
    ofAlternate (.elseIf span condition consequent alternate) =
      ofCast (.elseIf, condition) ++ consequent.flatMap ofNode ++ ofAlternate alternate

def Construct.attributes : Construct → List Attribute
  | .element _ _ attributes => attributes
  | _ => []

namespace Reading

open Scan

/-- A continuation of an open block is an expression in a role. -/
inductive GoesOnAs (s : Scan) : Cast → Prop
  | elseIf {rest next : Expression} (passed : (continuation s).1 = some rest)
      (found : elseIfCondition? rest = some next) : GoesOnAs s (.elseIf, next)
  | result {e : Expression} (passed : (continuation s).1 = some e) : GoesOnAs s (.result, e)

/-- The step that is ahead tells an expression in a role from the source. -/
inductive Tells (r : Reading) : Cast → Prop
  | mustache {e : Expression} (found : ((r.scan.skip 1).expression r.scan.pos).1 = some e)
      (filled : ¬e.isEmpty = true) : Tells r (.mustache, e)
  | tag {kind : TagKind} {e : Expression} (filled : ¬e.isEmpty = true) : Tells r (.tag kind, e)
  | header {header : Expression} {construct : Construct} {cast : Cast}
      (begins : r.scan.startsWith "\x7b#" = true)
      (found : ((r.scan.skip 2).word.2.expression r.scan.pos).1 = some header)
      (opens : blockConstruct? r.scan.pos (r.scan.skip 2).word.1 header = some construct)
      (member : cast ∈ construct.casts) : Tells r cast
  | continuation {cast : Cast} (goesOn : GoesOnAs r.scan cast) : Tells r cast

end Reading

namespace Collection

open Scan Reading

variable {α : Type} (c : Collection α)

def ofNodes (nodes : List Node) : List α := nodes.flatMap c.ofNode

/-- What is collected from a construct: from its attributes, its header and its branches. -/
def ofConstruct (construct : Construct) : List α :=
  construct.attributes.flatMap c.ofAttribute ++ construct.casts.flatMap c.ofCast ++
    construct.branches.flatMap c.ofNodes

/-- What is collected from what becomes of a construct. -/
def ofClosing : Closing → List α
  | .goesOn _ construct => c.ofConstruct construct
  | .closed _ node => c.ofNode node

def ofReading (r : Reading) : List α :=
  r.stack.flatMap (fun frame => c.ofConstruct frame.construct ++ c.ofNodes frame.before)
    ++ c.ofNodes r.nodes

/-- What one step adds. -/
inductive Adds (r : Reading) : Reading → α → Prop
  | ofTag {a : Attribute} {x : α} (own : a ∈ r.openingTag.attributes)
      (member : x ∈ c.ofAttribute a) : Adds r r.readElement x
  | cast {next : Reading} {cast : Cast} {x : α} (tells : r.Tells cast) (member : x ∈ c.ofCast cast) :
      Adds r next x
  | text {next : Reading} {t : RawText} {x : α} (member : x ∈ c.ofNode (.text t)) : Adds r next x
  | comment {next : Reading} {t : RawText} {x : α} (member : x ∈ c.ofNode (.comment t)) :
      Adds r next x

variable {c} {x : α} {s : Scan}

theorem mem_ofNodes_reverse {nodes : List Node} :
    x ∈ c.ofNodes nodes.reverse ↔ x ∈ c.ofNodes nodes := by
  simp only [ofNodes, List.mem_flatMap, List.mem_reverse]

private theorem mem_ofConstruct {construct : Construct} : x ∈ c.ofConstruct construct ↔
    x ∈ construct.attributes.flatMap c.ofAttribute ∨ x ∈ construct.casts.flatMap c.ofCast ∨
      x ∈ construct.branches.flatMap c.ofNodes := by
  rw [ofConstruct, List.mem_append, List.mem_append, or_assoc]

/-- A condition has what its arms have, and what comes after them. -/
theorem mem_conditionNode {stop close : Nat} {alternate : Alternate} {arms : List Arm}
    (member : x ∈ c.ofNode (conditionNode stop close alternate arms)) (filled : arms ≠ []) :
    x ∈ (armCasts arms).flatMap c.ofCast ∨ x ∈ (arms.map (·.consequent)).flatMap c.ofNodes ∨
      x ∈ c.ofAlternate alternate := by
  induction arms generalizing alternate with
  | nil => exact absurd rfl filled
  | cons arm outer ih =>
    rw [List.map_cons, List.flatMap_cons, List.mem_append]
    cases outer with
    | nil =>
      rw [conditionNode, c.ifBlock, List.mem_append, List.mem_append] at member
      rcases member with (condition | consequent) | inAlternate
      · exact .inl (List.mem_flatMap.2 ⟨_, List.mem_singleton_self _, condition⟩)
      · exact .inr (.inl (.inl consequent))
      · exact .inr (.inr inAlternate)
    | cons next outer =>
      rw [armCasts, List.flatMap_cons, List.mem_append]
      rcases ih member (List.cons_ne_nil _ _) with inCasts | inOuter | inAlternate
      · exact .inl (.inr inCasts)
      · exact .inr (.inl (.inr inOuter))
      · rw [c.elseIf, List.mem_append, List.mem_append] at inAlternate
        rcases inAlternate with (condition | consequent) | later
        · exact .inl (.inl condition)
        · exact .inr (.inl (.inl consequent))
        · exact .inr (.inr later)

private theorem mem_awaitNode {a : Awaiting} {stop : Nat} (member : x ∈ c.ofNode (a.node stop)) :
    x ∈ a.casts.flatMap c.ofCast ∨ x ∈ a.branches.flatMap c.ofNodes := by
  rw [Awaiting.node, c.await, List.mem_append] at member
  refine member.imp_right fun inBranches => ?_
  obtain ⟨start, subject, pending, onThen, onCatch⟩ := a
  cases onThen <;> cases onCatch <;>
    simpa [Awaiting.branches, ofNodes, or_assoc] using inBranches

/-- An `{#await}` block goes on with a branch, whose binding it tells, or ends. -/
theorem mem_closeAwait {a : Awaiting} (member : x ∈ c.ofClosing (closeAwait s a)) :
    x ∈ a.casts.flatMap c.ofCast ∨ x ∈ a.branches.flatMap c.ofNodes ∨
      ∃ cast, GoesOnAs s cast ∧ x ∈ c.ofCast cast := by
  unfold closeAwait at member
  split at member
  · rcases mem_ofConstruct.1 member with none | inCasts | inBranches
    · cases none
    · rw [Construct.casts, List.flatMap_append, List.mem_append] at inCasts
      refine inCasts.imp_right fun inBinding => .inr ?_
      obtain ⟨⟨role, e⟩, told, own⟩ := List.mem_flatMap.1 inBinding
      obtain ⟨rfl, passed⟩ := mem_castAs.1 told
      exact ⟨_, .result (Option.mem_toList.1 passed), own⟩
    · exact .inr (.inl inBranches)
  · exact (mem_awaitNode member).imp_right .inl

private theorem mem_put {a : Awaiting} {branch : AwaitBranch} {binding : Option Expression}
    {nodes : List Node} (member : x ∈ (a.put branch binding nodes).branches.flatMap c.ofNodes) :
    x ∈ a.branches.flatMap c.ofNodes ∨ x ∈ c.ofNodes nodes := by
  obtain ⟨kept, inBranches, inKept⟩ := List.mem_flatMap.1 member
  exact forall_branches_put (P := fun kept => x ∈ c.ofNodes kept →
      x ∈ a.branches.flatMap c.ofNodes ∨ x ∈ c.ofNodes nodes)
    (fun other here inOther => .inl (List.mem_flatMap.2 ⟨other, here, inOther⟩)) .inr
    kept inBranches inKept

/-- What becomes of a construct has what the construct and its nodes have, and what the continuation
tells that it goes on with. -/
theorem mem_close {nodes : List Node} {construct : Construct}
    (member : x ∈ c.ofClosing (close s nodes construct)) (filled : construct ≠ .otherwise []) :
    x ∈ c.ofConstruct construct ∨ x ∈ c.ofNodes nodes ∨
      ∃ cast, GoesOnAs s cast ∧ x ∈ c.ofCast cast := by
  -- arms whose nodes have been read
  have arms {start : Nat} {condition : Expression} {earlier : List Arm}
      (inArms : x ∈ (armCasts (⟨start, condition, nodes⟩ :: earlier)).flatMap c.ofCast ∨
        x ∈ ((Arm.mk start condition nodes :: earlier).map (·.consequent)).flatMap c.ofNodes) :
      x ∈ c.ofConstruct (.arm start condition earlier) ∨ x ∈ c.ofNodes nodes := by
    rw [armCasts_nodes, List.map_cons, List.flatMap_cons, List.mem_append] at inArms
    rcases inArms with inCasts | inNodes | inEarlier
    · exact .inl (mem_ofConstruct.2 (.inr (.inl inCasts)))
    · exact .inr inNodes
    · exact .inl (mem_ofConstruct.2 (.inr (.inr inEarlier)))
  have otherwise {start : Nat} {condition : Expression} {earlier : List Arm}
      (inConstruct : x ∈ c.ofConstruct (.otherwise (⟨start, condition, nodes⟩ :: earlier))) :
      x ∈ c.ofConstruct (.arm start condition earlier) ∨ x ∈ c.ofNodes nodes :=
    arms ((mem_ofConstruct.1 inConstruct).resolve_left nofun)
  cases construct with
  | element start name attributes =>
    simp only [close, ofClosing, c.element, List.mem_append] at member
    exact member.imp (fun own => mem_ofConstruct.2 (.inl own)) .inl
  | arm start condition earlier =>
    simp only [close] at member
    split at member
    · split at member
      · exact (otherwise member).imp_right .inl
      · rename_i rest passed
        split at member
        · rename_i next found
          rcases mem_ofConstruct.1 member with none | inCasts | inBranches
          · cases none
          · rcases List.mem_append.1 inCasts with told | inArms
            · exact .inr (.inr ⟨_, .elseIf passed found, told⟩)
            · exact (arms (.inl inArms)).imp_right .inl
          · exact (arms (.inr inBranches)).imp_right .inl
        · exact (otherwise member).imp_right .inl
    · rcases mem_conditionNode member (List.cons_ne_nil _ _) with inCasts | inBranches | absent
      · exact (arms (.inl inCasts)).imp_right .inl
      · exact (arms (.inr inBranches)).imp_right .inl
      · rw [c.absent] at absent
        cases absent
  | otherwise held =>
    have arms : held ≠ [] := fun nothing => filled (congrArg _ nothing)
    rcases mem_conditionNode member arms with inCasts | inBranches | inNodes
    · exact .inl (mem_ofConstruct.2 (.inr (.inl inCasts)))
    · exact .inl (mem_ofConstruct.2 (.inr (.inr inBranches)))
    · rw [c.otherwise] at inNodes
      exact .inr (.inl inNodes)
  | eachBody start header =>
    simp only [close] at member
    split at member
    · rcases mem_ofConstruct.1 member with none | inHeader | inBody
      · cases none
      · exact .inl (mem_ofConstruct.2 (.inr (.inl inHeader)))
      · exact .inr (.inl (by simpa [Construct.branches] using inBody))
    · simp only [ofClosing, c.each, List.mem_append] at member
      rcases member with (inHeader | inBody) | absent
      · exact .inl (mem_ofConstruct.2 (.inr (.inl inHeader)))
      · exact .inr (.inl inBody)
      · cases absent
  | eachFallback start header body =>
    simp only [close, ofClosing, c.each, List.mem_append] at member
    rcases member with (inHeader | inBody) | inNodes
    · exact .inl (mem_ofConstruct.2 (.inr (.inl inHeader)))
    · exact .inl (mem_ofConstruct.2 (.inr (.inr
        (List.mem_flatMap.2 ⟨body, List.mem_singleton_self _, inBody⟩))))
    · exact .inr (.inl inNodes)
  | awaitPending start e =>
    rcases mem_closeAwait member with inCasts | pending | told
    · exact .inl (mem_ofConstruct.2 (.inr (.inl inCasts)))
    · exact .inr (.inl (by simpa [Awaiting.branches] using pending))
    · exact .inr (.inr told)
  | awaitBranch done branch binding =>
    rcases mem_closeAwait member with inCasts | inBranches | told
    · refine .inl (mem_ofConstruct.2 (.inr (.inl ?_)))
      obtain ⟨cast, inPut, own⟩ := List.mem_flatMap.1 inCasts
      exact List.mem_flatMap.2 ⟨cast, List.mem_append.2 (mem_casts_put inPut), own⟩
    · exact (mem_put inBranches).imp (fun before => mem_ofConstruct.2 (.inr (.inr before))) .inl
    · exact .inr (.inr told)
  | key start e =>
    simp only [close, ofClosing, c.key, List.mem_append] at member
    refine member.imp (fun keyed => mem_ofConstruct.2 (.inr (.inl ?_))) .inl
    exact List.mem_flatMap.2 ⟨_, List.mem_singleton_self _, keyed⟩

variable {r next : Reading} {scan : Scan}

theorem mem_add {node : Node} (member : x ∈ c.ofReading (r.add scan node)) :
    x ∈ c.ofReading r ∨ x ∈ c.ofNode node := by
  simp only [ofReading, add, ofNodes, List.flatMap_cons, List.mem_append] at member ⊢
  rcases member with inStack | inNode | inNodes
  · exact .inl (.inl inStack)
  · exact .inr inNode
  · exact .inl (.inr inNodes)

theorem mem_enter {construct : Construct} (member : x ∈ c.ofReading (r.enter scan construct)) :
    x ∈ c.ofReading r ∨ x ∈ c.ofConstruct construct := by
  simp only [ofReading, enter, List.flatMap_cons, List.mem_append] at member ⊢
  rcases member with ((inConstruct | inNodes) | inStack) | nothing
  · exact .inr inConstruct
  · exact .inl (.inr inNodes)
  · exact .inl (.inl inStack)
  · cases nothing

/-- Dealing with the innermost construct adds what its continuation tells. -/
theorem mem_leave {source : String} (placed : r.Placed source) {frame : Frame} {outer : List Frame}
    (top : r.stack = frame :: outer) (member : x ∈ c.ofReading (r.leave frame outer)) :
    x ∈ c.ofReading r ∨ ∃ cast, r.Tells cast ∧ x ∈ c.ofCast cast := by
  have filled : frame.construct ≠ .otherwise [] := by
    have stack := placed.stack
    rw [top] at stack
    cases stack with
    | frame construct _ _ =>
      intro empty
      rw [empty] at construct
      cases construct with
      | otherwise filled _ => exact filled rfl
  have closing (member : x ∈ c.ofClosing (close r.scan r.nodes.reverse frame.construct)) :
      x ∈ c.ofReading r ∨ ∃ cast, r.Tells cast ∧ x ∈ c.ofCast cast := by
    rw [ofReading, top, List.flatMap_cons, List.mem_append, List.mem_append, List.mem_append]
    rcases mem_close member filled with inConstruct | inNodes | ⟨cast, told, own⟩
    · exact .inl (.inl (.inl (.inl inConstruct)))
    · exact .inl (.inr (mem_ofNodes_reverse.1 inNodes))
    · exact .inr ⟨cast, .continuation told, own⟩
  have outside (inOuter : x ∈ outer.flatMap (fun frame =>
      c.ofConstruct frame.construct ++ c.ofNodes frame.before)) : x ∈ c.ofReading r := by
    rw [ofReading, top, List.flatMap_cons]
    exact List.mem_append_left _ (List.mem_append_right _ inOuter)
  have before (inFrame : x ∈ c.ofNodes frame.before) : x ∈ c.ofReading r := by
    rw [ofReading, top, List.flatMap_cons]
    exact List.mem_append_left _ (List.mem_append_left _ (List.mem_append_right _ inFrame))
  unfold leave at member
  generalize close r.scan r.nodes.reverse frame.construct = result at closing member
  cases result with
  | goesOn scan construct =>
    simp only [ofReading, List.flatMap_cons, List.mem_append] at member
    rcases member with ((inConstruct | inFrame) | inOuter) | nothing
    · exact closing inConstruct
    · exact .inl (before inFrame)
    · exact .inl (outside inOuter)
    · cases nothing
  | closed scan node =>
    simp only [ofReading, ofNodes, List.flatMap_cons, List.mem_append] at member
    rcases member with inOuter | inNode | inFrame
    · exact .inl (outside inOuter)
    · exact closing inNode
    · exact .inl (before inFrame)

/-- A block that is opened has the expressions of its header. -/
theorem ofConstruct_blockConstruct? {start : Nat} {word : String} {header : Expression}
    {construct : Construct} (opens : blockConstruct? start word header = some construct)
    (member : x ∈ c.ofConstruct construct) : x ∈ construct.casts.flatMap c.ofCast := by
  unfold blockConstruct? at opens
  rcases mem_ofConstruct.1 member with own | inCasts | inBranches
  · split at opens
    · cases opens
      cases own
    · cases opens
      cases own
    · dsimp only at opens
      split at opens <;> cases opens <;> cases own
    · cases opens
      cases own
    · cases opens
  · exact inCasts
  · split at opens
    · cases opens
      cases inBranches
    · cases opens
      cases inBranches
    · dsimp only at opens
      split at opens <;> cases opens <;> cases inBranches
    · cases opens
      cases inBranches
    · cases opens

theorem mem_readBlock (begins : r.scan.startsWith "\x7b#" = true)
    (member : x ∈ c.ofReading r.readBlock) :
    x ∈ c.ofReading r ∨ ∃ cast, r.Tells cast ∧ x ∈ c.ofCast cast := by
  unfold readBlock at member
  dsimp only at member
  split at member
  · exact .inl member
  · rename_i header found
    split at member
    · rename_i construct opens
      refine (mem_enter member).imp_right fun inConstruct => ?_
      obtain ⟨cast, inHeader, own⟩ :=
        List.mem_flatMap.1 (ofConstruct_blockConstruct? opens inConstruct)
      exact ⟨cast, .header begins found opens inHeader, own⟩
    · exact .inl member

theorem mem_readTag (member : x ∈ c.ofReading r.readTag) :
    x ∈ c.ofReading r ∨ ∃ cast, r.Tells cast ∧ x ∈ c.ofCast cast := by
  unfold readTag at member
  dsimp only at member
  split at member
  · exact .inl member
  · exact .inl member
  · refine (mem_add member).imp_right fun inTag => ?_
    rw [c.tag] at inTag
    obtain ⟨⟨role, e⟩, told, own⟩ := List.mem_flatMap.1 inTag
    obtain ⟨rfl, named⟩ := mem_castAs.1 told
    split at named
    · cases named
    · rename_i filled
      cases List.mem_singleton.1 named
      exact ⟨_, .tag filled, own⟩

theorem mem_readMustache (member : x ∈ c.ofReading r.readMustache) :
    x ∈ c.ofReading r ∨ ∃ cast, r.Tells cast ∧ x ∈ c.ofCast cast := by
  unfold readMustache at member
  dsimp only at member
  split at member
  · exact .inl member
  · rename_i e found
    split at member
    · exact .inl member
    · rename_i filled
      refine (mem_add member).imp_right fun inMustache => ?_
      rw [c.mustache] at inMustache
      exact ⟨_, .mustache found filled, inMustache⟩

theorem mem_strayCloser (member : x ∈ c.ofReading r.strayCloser) : x ∈ c.ofReading r := by
  unfold strayCloser at member
  dsimp only at member
  split at member
  · exact member
  · split at member
    · exact member
    · exact member

private theorem ofReading_addScript (r : Reading) (script : Script) :
    c.ofReading (r.addScript script) = c.ofReading r := by
  unfold addScript
  split
  · split <;> rfl
  · split <;> rfl

private theorem mem_readElement (member : x ∈ c.ofReading r.readElement) :
    x ∈ c.ofReading r ∨ c.Adds r r.readElement x := by
  have attributes (own : x ∈ r.openingTag.attributes.flatMap c.ofAttribute) :
      c.Adds r r.readElement x := by
    obtain ⟨a, inTag, own⟩ := List.mem_flatMap.1 own
    exact .ofTag inTag own
  -- an element is read with its attributes and without children
  have alone {head : ElementHead} (own : head.attributes = r.openingTag.attributes)
      (inElement : x ∈ c.ofNode (.element head [])) : c.Adds r r.readElement x := by
    rw [c.element, own, List.flatMap_nil, List.append_nil] at inElement
    exact attributes inElement
  have whole := r.readElement_eq
  split at whole
  · unfold readRaw at whole
    dsimp only at whole
    split at whole
    · rw [whole] at member
      refine (mem_add member).imp_right fun inElement => ?_
      rw [c.element, List.mem_append] at inElement
      rcases inElement with own | inText
      · exact attributes own
      · rw [List.flatMap_singleton] at inText
        exact .text inText
    · split at whole
      · rw [whole] at member
        exact .inl member
      · rw [whole, ofReading_addScript] at member
        exact .inl member
  · split at whole
    · rw [whole] at member
      exact (mem_add member).imp_right (alone rfl)
    · rw [whole] at member
      refine (mem_enter member).imp_right fun inConstruct => ?_
      rcases mem_ofConstruct.1 inConstruct with own | nothing | nothing
      · exact attributes own
      · cases nothing
      · cases nothing

/-- What is collected when a step has been taken was collected before, or the step adds it. -/
theorem mem_step {source : String} (placed : r.Placed source) (takes : r.Takes next)
    (member : x ∈ c.ofReading next) :
    x ∈ c.ofReading r ∨ c.Adds r next x := by
  have told : (∃ cast, r.Tells cast ∧ x ∈ c.ofCast cast) → c.Adds r next x := by
    rintro ⟨cast, tells, own⟩
    exact .cast tells own
  cases takes with
  | comment ahead =>
    unfold readComment at member ⊢
    dsimp only at member
    split at member
    · exact (mem_add member).imp_right .comment
    · exact (mem_add member).imp_right .comment
  | element ahead letter => exact mem_readElement member
  | block ahead =>
    have begins : r.scan.startsWith "\x7b#" = true := by
      rw [startsWith, ahead]
      rfl
    exact (mem_readBlock begins member).imp_right told
  | tag ahead => exact (mem_readTag member).imp_right told
  | mustache ahead other => exact (mem_readMustache member).imp_right told
  | text ahead goesOn => exact (mem_add member).imp_right .text
  | closer top closer => exact (mem_leave placed top member).imp_right told
  | stray top more closer => exact .inl (mem_strayCloser member)

end Collection

end TypedSvelte.Markup
