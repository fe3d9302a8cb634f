import TypedSvelte.Proofs.Markup.Readers
import TypedSvelte.Proofs.Markup.Tiling

/-!
# What open constructs hold

An open construct holds parts of the document that are placed between its beginning and the place of
the reading (`Construct.Placed`) and whose lists of nodes are rows (`Construct.Joined`). When it is
closed, the node that it leaves begins with it and ends where the reading goes on, and has the same
properties.
-/
namespace TypedSvelte.Markup

open Scan Reading

variable {source : String} {stop later : Nat}

/-- The place where the innermost of the arms began. -/
def innermostStart (arms : List Arm) : Nat := (arms.head?.map (·.start)).getD 0

def Construct.start : Construct → Nat
  | .arm start condition earlier => outermostStart (⟨start, condition, []⟩ :: earlier)
  | .otherwise arms => outermostStart arms
  | .awaitBranch done _ _ => done.start
  | .element start _ _ | .eachBody start _ | .eachFallback start _ _ | .awaitPending start _
  | .key start _ => start

/-- The place where the node began that the nodes being read belong to: of a condition, its
innermost arm. -/
def Construct.base : Construct → Nat
  | .arm start _ _ => start
  | .otherwise arms => innermostStart arms
  | construct => construct.start

/-- An arm lies between its beginning and an offset behind it. -/
structure Arm.Placed (source : String) (stop : Nat) (arm : Arm) : Prop where
  began : Span.Fits source ⟨arm.start, stop⟩
  condition : arm.condition.Placed source ⟨arm.start, stop⟩
  consequent : ∀ node ∈ arm.consequent, node.Placed source ⟨arm.start, stop⟩

/-- The arms, innermost first, lie one behind the other. -/
inductive ArmsPlaced (source : String) : Nat → List Arm → Prop
  | nil {stop : Nat} : ArmsPlaced source stop []
  | cons {stop : Nat} {arm : Arm} {outer : List Arm} (here : arm.Placed source stop)
      (before : ArmsPlaced source arm.start outer) : ArmsPlaced source stop (arm :: outer)

/-- What has been read of an `{#await}` block lies between its beginning and an offset behind it. -/
structure Awaiting.Placed (source : String) (stop : Nat) (a : Awaiting) : Prop where
  began : Span.Fits source ⟨a.start, stop⟩
  subject : a.expression.Placed source ⟨a.start, stop⟩
  pending : ∀ node ∈ a.pending, node.Placed source ⟨a.start, stop⟩
  thenBinding : ∀ branch ∈ a.onThen, ∀ e ∈ branch.1, e.Placed source ⟨a.start, stop⟩
  onThen : ∀ branch ∈ a.onThen, ∀ node ∈ branch.2, node.Placed source ⟨a.start, stop⟩
  catchBinding : ∀ branch ∈ a.onCatch, ∀ e ∈ branch.1, e.Placed source ⟨a.start, stop⟩
  onCatch : ∀ branch ∈ a.onCatch, ∀ node ∈ branch.2, node.Placed source ⟨a.start, stop⟩

/-- What an open construct holds lies between its beginning and an offset behind it. -/
inductive Construct.Placed (source : String) (stop : Nat) : Construct → Prop
  | element {start : Nat} {name : String} {attributes : List Attribute}
      (began : Span.Fits source ⟨start, stop⟩)
      (placed : ∀ a ∈ attributes, a.Placed source ⟨start, stop⟩) :
      Placed source stop (.element start name attributes)
  | arm {start : Nat} {condition : Expression} {earlier : List Arm}
      (arms : ArmsPlaced source stop (⟨start, condition, []⟩ :: earlier)) :
      Placed source stop (.arm start condition earlier)
  | otherwise {arms : List Arm} (filled : arms ≠ []) (placed : ArmsPlaced source stop arms) :
      Placed source stop (.otherwise arms)
  | eachBody {start : Nat} {header : EachHeader} (began : Span.Fits source ⟨start, stop⟩)
      (placed : ∀ e ∈ header.parts, e.Placed source ⟨start, stop⟩) :
      Placed source stop (.eachBody start header)
  | eachFallback {start : Nat} {header : EachHeader} {nodes : List Node}
      (began : Span.Fits source ⟨start, stop⟩)
      (placed : ∀ e ∈ header.parts, e.Placed source ⟨start, stop⟩)
      (body : ∀ node ∈ nodes, node.Placed source ⟨start, stop⟩) :
      Placed source stop (.eachFallback start header nodes)
  | awaitPending {start : Nat} {subject : Expression} (began : Span.Fits source ⟨start, stop⟩)
      (placed : subject.Placed source ⟨start, stop⟩) :
      Placed source stop (.awaitPending start subject)
  | awaitBranch {done : Awaiting} {branch : AwaitBranch} {binding : Option Expression}
      (before : done.Placed source stop)
      (placed : ∀ e ∈ binding, e.Placed source ⟨done.start, stop⟩) :
      Placed source stop (.awaitBranch done branch binding)
  | key {start : Nat} {subject : Expression} (began : Span.Fits source ⟨start, stop⟩)
      (placed : subject.Placed source ⟨start, stop⟩) : Placed source stop (.key start subject)

theorem inside_further (start : Nat) (further : stop ≤ later) :
    Span.Inside ⟨start, stop⟩ ⟨start, later⟩ :=
  ⟨Nat.le_refl _, further⟩

theorem Arm.Placed.mono {arm : Arm} (placed : arm.Placed source stop) (further : stop ≤ later)
    (cut : IsCut source later) : arm.Placed source later where
  began := placed.began.extend further cut
  condition := placed.condition.mono (inside_further _ further)
  consequent node member := (placed.consequent node member).mono (inside_further _ further)

theorem ArmsPlaced.mono {arms : List Arm} (placed : ArmsPlaced source stop arms)
    (further : stop ≤ later) (cut : IsCut source later) : ArmsPlaced source later arms := by
  cases placed with
  | nil => exact .nil
  | cons here before => exact .cons (here.mono further cut) before

theorem Awaiting.Placed.mono {a : Awaiting} (placed : a.Placed source stop)
    (further : stop ≤ later) (cut : IsCut source later) : a.Placed source later where
  began := placed.began.extend further cut
  subject := placed.subject.mono (inside_further _ further)
  pending node member := (placed.pending node member).mono (inside_further _ further)
  thenBinding branch isThen e bound :=
    (placed.thenBinding branch isThen e bound).mono (inside_further _ further)
  onThen branch isThen node member :=
    (placed.onThen branch isThen node member).mono (inside_further _ further)
  catchBinding branch isCatch e bound :=
    (placed.catchBinding branch isCatch e bound).mono (inside_further _ further)
  onCatch branch isCatch node member :=
    (placed.onCatch branch isCatch node member).mono (inside_further _ further)

theorem Construct.Placed.mono {construct : Construct} (placed : construct.Placed source stop)
    (further : stop ≤ later) (cut : IsCut source later) : construct.Placed source later := by
  cases placed with
  | element began placed =>
    exact .element (began.extend further cut)
      fun a member => (placed a member).mono (inside_further _ further)
  | arm arms => exact .arm (arms.mono further cut)
  | otherwise filled arms => exact .otherwise filled (arms.mono further cut)
  | eachBody began placed =>
    exact .eachBody (began.extend further cut)
      fun e member => (placed e member).mono (inside_further _ further)
  | eachFallback began placed body =>
    exact .eachFallback (began.extend further cut)
      (fun e member => (placed e member).mono (inside_further _ further))
      fun node member => (body node member).mono (inside_further _ further)
  | awaitPending began placed =>
    exact .awaitPending (began.extend further cut) (placed.mono (inside_further _ further))
  | awaitBranch before placed =>
    exact .awaitBranch (before.mono further cut)
      fun e bound => (placed e bound).mono (inside_further _ further)
  | key began placed => exact .key (began.extend further cut) (placed.mono (inside_further _ further))

theorem ArmsPlaced.began {arms : List Arm} (placed : ArmsPlaced source stop arms)
    (filled : arms ≠ []) :
    Span.Fits source ⟨outermostStart arms, stop⟩ ∧ outermostStart arms ≤ innermostStart arms ∧
      innermostStart arms ≤ stop := by
  induction placed with
  | nil => exact absurd rfl filled
  | @cons stop arm outer here before ih =>
    cases outer with
    | nil => exact ⟨here.began, Nat.le_refl _, here.began.ordered⟩
    | cons next outer =>
      obtain ⟨began, inner, behind⟩ := ih (List.cons_ne_nil _ _)
      refine ⟨began.extend here.began.ordered here.began.stop, ?_, here.began.ordered⟩
      exact Nat.le_trans inner behind

theorem Construct.Placed.began {construct : Construct} (placed : construct.Placed source stop) :
    Span.Fits source ⟨construct.start, stop⟩ ∧ construct.start ≤ construct.base ∧
      construct.base ≤ stop := by
  cases placed with
  | arm arms => exact arms.began (List.cons_ne_nil _ _)
  | otherwise filled arms => exact arms.began filled
  | awaitBranch before _ => exact ⟨before.began, Nat.le_refl _, before.began.ordered⟩
  | element began _ | eachBody began _ | eachFallback began _ _ | awaitPending began _
  | key began _ => exact ⟨began, Nat.le_refl _, began.ordered⟩

private theorem placed_conditionNode {close : Nat} {arms : List Arm} {rest : Alternate}
    (placed : ArmsPlaced source stop arms) (filled : arms ≠ [])
    (alternate : rest.Placed source ⟨innermostStart arms, stop⟩) (further : stop ≤ close)
    (cut : IsCut source close) :
    (conditionNode stop close rest arms).Placed source ⟨outermostStart arms, close⟩ ∧
      (conditionNode stop close rest arms).span = ⟨outermostStart arms, close⟩ := by
  induction arms generalizing rest with
  | nil => exact absurd rfl filled
  | cons arm outer ih =>
    cases placed with
    | cons here before =>
      cases outer with
      | nil =>
        have whole := here.mono further cut
        refine ⟨.ifBlock ⟨whole.began, .refl _⟩ whole.condition whole.consequent ?_, rfl⟩
        exact alternate.mono (inside_further _ further)
      | cons next outer =>
        have earlier := before.mono here.began.ordered here.began.stop
        obtain ⟨_, _, behind⟩ := before.began (List.cons_ne_nil _ _)
        have span : Span.Lies source ⟨arm.start, stop⟩ ⟨innermostStart (next :: outer), stop⟩ :=
          ⟨here.began, behind, Nat.le_refl _⟩
        exact ih earlier (List.cons_ne_nil _ _)
          (.elseIf span here.condition here.consequent alternate)

private theorem placed_awaitNode {a : Awaiting} (placed : a.Placed source stop) :
    (a.node stop).Placed source ⟨a.start, stop⟩ := by
  refine .await ⟨placed.began, .refl _⟩ ?_ placed.pending ?_ ?_
  · intro e part
    simp only [AwaitHead.parts, List.cons_append, List.mem_cons, List.mem_append,
      Option.mem_toList] at part
    rcases part with rfl | isThen | isCatch
    · exact placed.subject
    · obtain ⟨branch, here, bound⟩ := Option.bind_eq_some_iff.1 isThen
      exact placed.thenBinding branch here e bound
    · obtain ⟨branch, here, bound⟩ := Option.bind_eq_some_iff.1 isCatch
      exact placed.catchBinding branch here e bound
  · intro nodes isThen
    obtain ⟨branch, here, rfl⟩ := Option.map_eq_some_iff.1 isThen
    exact placed.onThen branch here
  · intro nodes isCatch
    obtain ⟨branch, here, rfl⟩ := Option.map_eq_some_iff.1 isCatch
    exact placed.onCatch branch here

theorem Awaiting.Placed.put {a : Awaiting} (placed : a.Placed source stop) (branch : AwaitBranch)
    {binding : Option Expression} {nodes : List Node}
    (bound : ∀ e ∈ binding, e.Placed source ⟨a.start, stop⟩)
    (inner : ∀ node ∈ nodes, node.Placed source ⟨a.start, stop⟩) :
    (a.put branch binding nodes).Placed source stop := by
  cases branch with
  | then_ =>
    refine { placed with thenBinding := fun other here => ?_, onThen := fun other here => ?_ }
    · cases Option.some.inj here
      exact bound
    · cases Option.some.inj here
      exact inner
  | catch_ =>
    refine { placed with catchBinding := fun other here => ?_, onCatch := fun other here => ?_ }
    · cases Option.some.inj here
      exact bound
    · cases Option.some.inj here
      exact inner

namespace Reading

variable {s : Scan} {start : Nat}

private theorem leads_continuation (here : (ofSource source).Reaches s) :
    s.Leads source (continuation s).2 := by
  have word : s.Leads source (s.skip 2).word.2 := (s.leads_skip 2).trans (leads_word _)
  exact word.trans (leads_expression (here.since word.reached))

private theorem leads_closeTag (since : Since source start s) (name : String) :
    s.Leads source (closeTag s name start) := by
  unfold closeTag
  dsimp only
  split
  · split
    · exact s.leads_skipPast '>'
    · exact leads_fail since _
  · exact leads_fail since _

private theorem leads_closeBlock (since : Since source start s) (block : String) :
    s.Leads source (closeBlock s block start) := by
  unfold closeBlock
  split
  · exact s.leads_skipPast '}'
  · exact leads_fail since _

private theorem leads_closeAwait {a : Awaiting} (since : Since source a.start s) :
    s.Leads source (closeAwait s a).scan := by
  unfold closeAwait
  split
  · exact leads_continuation since.here
  · exact leads_closeBlock since _

theorem leads_close {construct : Construct} (since : Since source construct.start s)
    (nodes : List Node) : s.Leads source (close s nodes construct).scan := by
  have condition (alternate : Alternate) {arms : List Arm}
      (began : Since source (outermostStart arms) s) :
      s.Leads source (closeCondition s arms alternate).scan :=
    leads_closeBlock began _
  cases construct with
  | element start name attributes => exact leads_closeTag since _
  | arm start e earlier =>
    have began : Since source (outermostStart (⟨start, e, nodes⟩ :: earlier)) s := by
      cases earlier <;> exact since
    dsimp only [close]
    split
    · have more := leads_continuation since.here
      split
      · exact more
      · split
        · exact more
        · exact more.trans (leads_fail (since.here.since more.reached) _)
    · exact condition _ began
  | otherwise arms => exact condition _ since
  | eachBody start header =>
    dsimp only [close]
    split
    · exact leads_continuation since.here
    · exact leads_closeBlock since _
  | eachFallback start header body => exact leads_closeBlock since _
  | awaitPending start e => exact leads_closeAwait since
  | awaitBranch done branch binding =>
    have began : Since source (done.put branch binding nodes).start s := by
      cases branch <;> exact since
    exact leads_closeAwait began
  | key start e => exact leads_closeBlock since _

/-- What becomes of a construct that began at `start` is placed behind that offset: it goes on from
the same beginning, or its node reaches from there to the place of the reading. -/
inductive Closing.Placed (source : String) (start : Nat) : Closing → Prop
  | goesOn {scan : Scan} {construct : Construct} (same : construct.start = start)
      (placed : construct.Placed source scan.pos) : Placed source start (.goesOn scan construct)
  | closed {scan : Scan} {node : Node} (span : node.span = ⟨start, scan.pos⟩)
      (placed : node.Placed source ⟨start, scan.pos⟩) : Placed source start (.closed scan node)

private theorem placed_continuation {e : Expression} (here : (ofSource source).Reaches s)
    (found : (continuation s).1 = some e) : e.Placed source ⟨s.pos, (continuation s).2.pos⟩ := by
  have toHeader := (s.reaches_skip 2).trans (reaches_word _)
  obtain ⟨read, _⟩ := Option.filter_eq_some_iff.1 found
  exact (placed_expression (here.trans toHeader) read).mono
    (inside_of_reaches toHeader (Nat.le_refl _))

/-- The binding of a continuation lies behind all that began before. -/
theorem placed_continuation_binding (since : Since source start s) :
    ∀ e ∈ (continuation s).1, e.Placed source ⟨start, (continuation s).2.pos⟩ :=
  fun _ bound => (placed_continuation since.here bound).mono ⟨since.span.ordered, Nat.le_refl _⟩

private theorem placed_closeCondition {arms : List Arm} {rest : Alternate}
    (here : (ofSource source).Reaches s) (placed : ArmsPlaced source s.pos arms)
    (filled : arms ≠ []) (alternate : rest.Placed source ⟨innermostStart arms, s.pos⟩) :
    (closeCondition s arms rest).Placed source (outermostStart arms) := by
  have reached := reaches_closeBlock s "if" (outermostStart arms)
  obtain ⟨node, span⟩ := placed_conditionNode placed filled alternate reached.pos_le
    (here.trans reached).isCut
  exact .closed span node

private theorem placed_closeAwait {a : Awaiting} (here : (ofSource source).Reaches s)
    (placed : a.Placed source s.pos) : (closeAwait s a).Placed source a.start := by
  unfold closeAwait
  split
  · have reached := reaches_continuation s
    have further := placed.mono reached.pos_le (here.trans reached).isCut
    exact .goesOn rfl (.awaitBranch further (placed_continuation_binding ⟨here, placed.began⟩))
  · have reached := reaches_closeBlock s "await" a.start
    exact .closed rfl (placed_awaitNode (placed.mono reached.pos_le (here.trans reached).isCut))

theorem placed_close {construct : Construct} {nodes : List Node}
    (here : (ofSource source).Reaches s) (placed : construct.Placed source s.pos)
    (inner : ∀ node ∈ nodes, node.Placed source ⟨construct.base, s.pos⟩) :
    (close s nodes construct).Placed source construct.start := by
  cases placed with
  | @element start name attributes began placed =>
    have reached := reaches_closeTag s name start
    have wide := inside_further start reached.pos_le
    have span := began.extend reached.pos_le (here.trans reached).isCut
    exact .closed rfl (.element ⟨span, .refl _⟩ (fun a member => (placed a member).mono wide)
      fun node member => (inner node member).mono wide)
  | @arm start condition earlier arms =>
    cases arms with
    | cons arm before =>
      have filled : ArmsPlaced source s.pos (⟨start, condition, nodes⟩ :: earlier) :=
        .cons ⟨arm.began, arm.condition, inner⟩ before
      have same : outermostStart (⟨start, condition, nodes⟩ :: earlier) =
          (Construct.arm start condition earlier).start := by cases earlier <;> rfl
      dsimp only [close]
      split
      · have reached := reaches_continuation s
        have further := filled.mono reached.pos_le (here.trans reached).isCut
        split
        · exact .goesOn same (.otherwise (List.cons_ne_nil _ _) further)
        · rename_i rest continued
          split
          · rename_i next found
            have part := (placed_continuation here continued).of_hasPart
              (part_elseIfCondition? found)
            have opened : Arm.Placed source (continuation s).2.pos ⟨s.pos, next, []⟩ :=
              ⟨here.fits reached, part, nofun⟩
            exact .goesOn same (.arm (.cons opened filled))
          · exact .goesOn same (.otherwise (List.cons_ne_nil _ _) further)
      · rw [← same]
        exact placed_closeCondition here filled (List.cons_ne_nil _ _) .absent
  | otherwise filled arms => exact placed_closeCondition here arms filled (.otherwise inner)
  | @eachBody start header began placed =>
    dsimp only [close]
    split
    · have reached := reaches_continuation s
      have wide := inside_further start reached.pos_le
      have span := began.extend reached.pos_le (here.trans reached).isCut
      exact .goesOn rfl (.eachFallback span (fun e member => (placed e member).mono wide)
        fun node member => (inner node member).mono wide)
    · have reached := reaches_closeBlock s "each" start
      have wide := inside_further start reached.pos_le
      have span := began.extend reached.pos_le (here.trans reached).isCut
      exact .closed rfl (.each ⟨span, .refl _⟩ (fun e member => (placed e member).mono wide)
        (fun node member => (inner node member).mono wide) nofun)
  | @eachFallback start header body began placed bodyPlaced =>
    have reached := reaches_closeBlock s "each" start
    have wide := inside_further start reached.pos_le
    have span := began.extend reached.pos_le (here.trans reached).isCut
    refine .closed rfl (.each ⟨span, .refl _⟩ (fun e member => (placed e member).mono wide)
      (fun node member => (bodyPlaced node member).mono wide) fun branch same => ?_)
    cases Option.some.inj same
    exact fun node member => (inner node member).mono wide
  | @awaitPending start subject began placed =>
    have read : Awaiting.Placed source s.pos ⟨start, subject, nodes, none, none⟩ :=
      ⟨began, placed, inner, nofun, nofun, nofun, nofun⟩
    exact placed_closeAwait here read
  | @awaitBranch done branch binding before bound =>
    have put := before.put branch bound inner
    have same : (done.put branch binding nodes).start = done.start := by cases branch <;> rfl
    have closing := placed_closeAwait here put
    rw [same] at closing
    exact closing
  | @key start subject began placed =>
    have reached := reaches_closeBlock s "key" start
    have wide := inside_further start reached.pos_le
    have span := began.extend reached.pos_le (here.trans reached).isCut
    exact .closed rfl (.key ⟨span, .refl _⟩ (placed.mono wide)
      fun node member => (inner node member).mono wide)

end Reading

/-- The lists of nodes that have been read of an `{#await}` block. -/
def Awaiting.branches (a : Awaiting) : List (List Node) :=
  a.pending :: (a.onThen.toList ++ a.onCatch.toList).map (·.2)

def Construct.branches : Construct → List (List Node)
  | .arm _ _ earlier => earlier.map (·.consequent)
  | .otherwise arms => arms.map (·.consequent)
  | .eachFallback _ _ body => [body]
  | .awaitBranch done _ _ => done.branches
  | .element _ _ _ | .eachBody _ _ | .awaitPending _ _ | .key _ _ => []

namespace Reading

/-- What becomes of a construct holds rows of nodes. -/
inductive Closing.Joined : Closing → Prop
  | goesOn {scan : Scan} {construct : Construct}
      (strung : ∀ nodes ∈ construct.branches, Strung nodes) : Joined (.goesOn scan construct)
  | closed {scan : Scan} {node : Node} (joined : node.Joined) : Joined (.closed scan node)

variable {s : Scan}

private theorem joined_conditionNode {close : Nat} {arms : List Arm} {rest : Alternate}
    (strung : ∀ arm ∈ arms, Strung arm.consequent) (alternate : rest.Joined) :
    (conditionNode stop close rest arms).Joined := by
  induction arms generalizing rest with
  | nil => exact .text
  | cons arm outer ih =>
    obtain ⟨row, inner⟩ := strung arm (.head _)
    cases outer with
    | nil => exact .ifBlock row inner alternate
    | cons next outer =>
      exact ih (fun other member => strung other (.tail _ member)) (.elseIf row inner alternate)

private theorem joined_awaitNode {a : Awaiting} (strung : ∀ nodes ∈ a.branches, Strung nodes) :
    (a.node stop).Joined := by
  have onThen (branch : List Node) (here : branch ∈ a.onThen.map (·.2)) : Strung branch := by
    obtain ⟨pair, found, rfl⟩ := Option.map_eq_some_iff.1 here
    exact strung _ (.tail _ (List.mem_map_of_mem (List.mem_append_left _ (Option.mem_toList.2 found))))
  have onCatch (branch : List Node) (here : branch ∈ a.onCatch.map (·.2)) : Strung branch := by
    obtain ⟨pair, found, rfl⟩ := Option.map_eq_some_iff.1 here
    exact strung _ (.tail _ (List.mem_map_of_mem (List.mem_append_right _ (Option.mem_toList.2 found))))
  obtain ⟨row, pending⟩ := strung a.pending (.head _)
  exact .await row pending (fun branch here => (onThen branch here).1)
    (fun branch here => (onThen branch here).2) (fun branch here => (onCatch branch here).1)
    fun branch here => (onCatch branch here).2

/-- What holds of the branches read so far and of one more holds of all of them. -/
theorem forall_branches_put {P : List Node → Prop} {a : Awaiting} {branch : AwaitBranch}
    {binding : Option Expression} {nodes : List Node} (before : ∀ other ∈ a.branches, P other)
    (here : P nodes) : ∀ other ∈ (a.put branch binding nodes).branches, P other := by
  intro other member
  simp only [Awaiting.branches, List.mem_cons, List.map_append, List.mem_append, List.mem_map,
    Option.mem_toList] at before member
  cases branch with
  | then_ =>
    rcases member with rfl | ⟨pair, new, rfl⟩ | old
    · exact before _ (Or.inl rfl)
    · cases new
      exact here
    · exact before _ (Or.inr (Or.inr old))
  | catch_ =>
    rcases member with rfl | old | ⟨pair, new, rfl⟩
    · exact before _ (Or.inl rfl)
    · exact before _ (Or.inr (Or.inl old))
    · cases new
      exact here

private theorem joined_closeAwait {a : Awaiting} (strung : ∀ nodes ∈ a.branches, Strung nodes) :
    (closeAwait s a).Joined := by
  unfold closeAwait
  split
  · exact .goesOn strung
  · exact .closed (joined_awaitNode strung)

theorem joined_close {construct : Construct} {nodes : List Node}
    (strung : ∀ branch ∈ construct.branches, Strung branch) (here : Strung nodes) :
    (close s nodes construct).Joined := by
  obtain ⟨row, inner⟩ := here
  cases construct with
  | element start name attributes => exact .closed (.element row inner)
  | arm start condition earlier =>
    have arms : ∀ arm ∈ Arm.mk start condition nodes :: earlier, Strung arm.consequent := by
      intro arm member
      rcases List.mem_cons.1 member with rfl | old
      · exact ⟨row, inner⟩
      · exact strung _ (List.mem_map_of_mem old)
    have held : ∀ branch ∈ (Arm.mk start condition nodes :: earlier).map (·.consequent),
        Strung branch := by
      intro branch member
      obtain ⟨arm, inArms, rfl⟩ := List.mem_map.1 member
      exact arms arm inArms
    dsimp only [close]
    split
    · split
      · exact .goesOn held
      · split
        · exact .goesOn held
        · exact .goesOn held
    · exact .closed (joined_conditionNode arms .absent)
  | otherwise arms =>
    have held (arm : Arm) (member : arm ∈ arms) : Strung arm.consequent :=
      strung _ (List.mem_map_of_mem member)
    exact .closed (joined_conditionNode held (.otherwise row inner))
  | eachBody start header =>
    dsimp only [close]
    split
    · refine .goesOn fun branch member => ?_
      cases List.mem_singleton.1 member
      exact ⟨row, inner⟩
    · exact .closed (.each row inner nofun nofun)
  | eachFallback start header body =>
    obtain ⟨bodyRow, bodyInner⟩ := strung body (List.mem_singleton_self _)
    refine .closed (.each bodyRow bodyInner ?_ ?_)
    · intro branch same
      cases Option.some.inj same
      exact row
    · intro branch same
      cases Option.some.inj same
      exact inner
  | awaitPending start subject =>
    apply joined_closeAwait
    intro branch member
    cases List.mem_singleton.1 member
    exact ⟨row, inner⟩
  | awaitBranch done branch binding =>
    exact joined_closeAwait (forall_branches_put strung ⟨row, inner⟩)
  | key start subject => exact .closed (.key row inner)

end Reading

end TypedSvelte.Markup
