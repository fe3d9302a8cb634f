import TypedSvelte.Proofs.Markup.Relocation

/-!
# What is moved alike

What has been read of a component refers to no offset behind the place of the reading. So two moves
that agree up to this place make the same of it (`Reading.moved_congr`).
-/
namespace TypedSvelte.Markup

variable {source : String} {parent : Span} {stop : Nat} {move other : Nat → Nat} {hole : Nat}

def AgreeUpTo (stop : Nat) (move other : Nat → Nat) : Prop := ∀ o ≤ stop, move o = other o

theorem AgreeUpTo.mono {earlier : Nat} (agree : AgreeUpTo stop move other)
    (before : earlier ≤ stop) : AgreeUpTo earlier move other :=
  fun o below => agree o (Nat.le_trans below before)

section

variable (agree : AgreeUpTo parent.stop move other)

include agree

theorem Span.moved_congr {s : Span} (ordered : s.start ≤ s.stop) (inside : s.Inside parent) :
    s.moved move = s.moved other := by
  unfold Span.moved
  rw [agree _ inside.2, agree _ (Nat.le_trans ordered inside.2)]

private theorem moved_congr_lies {s : Span} (lies : s.Lies source parent) : s.moved move = s.moved other :=
  Span.moved_congr agree lies.fits.ordered lies.inside

theorem Expression.moved_congr {e : Expression} (placed : e.Placed source parent) :
    e.moved move = e.moved other := by
  unfold Expression.moved
  rw [Span.moved_congr agree placed.fits.ordered placed.inside]

private theorem moved_congr_expressions {e? : Option Expression} (placed : ∀ e ∈ e?, e.Placed source parent) :
    e?.map (Expression.moved move) = e?.map (Expression.moved other) :=
  Option.map_congr fun e member => Expression.moved_congr agree (placed e member)

theorem RawText.moved_congr {t : RawText} (fits : t.span.Fits source) (inside : t.span.Inside parent) :
    t.filled move hole = t.filled other hole := by
  unfold RawText.filled RawText.moved
  rw [Span.moved_congr agree fits.ordered inside]

theorem Attribute.moved_congr {a : Attribute} (placed : a.Placed source parent) :
    a.moved move = a.moved other := by
  cases placed with
  | @plain a span value =>
    have inner := agree.mono span.inside.2
    have part (part : ValuePart) (member : part ∈ a.value) : part.moved move = part.moved other := by
      cases part with
      | text t =>
        have here : t.Placed source a.span := value _ member
        have fits : t.span.Fits source := .of_slice? here.slice
        simp only [ValuePart.moved, RawText.moved]
        rw [Span.moved_congr inner fits.ordered here.inside]
      | expression e => exact congrArg _ (Expression.moved_congr inner (value _ member))
    simp only [Attribute.moved, PlainAttribute.moved]
    rw [moved_congr_lies agree span, List.map_congr_left part]
  | shorthand e => exact congrArg _ (Expression.moved_congr agree e)
  | spread e => exact congrArg _ (Expression.moved_congr agree e)
  | @directive d span value =>
    simp only [Attribute.moved, Directive.moved]
    rw [moved_congr_lies agree span, moved_congr_expressions (agree.mono span.inside.2) value]

theorem moved_congr_attributes {as : List Attribute} (placed : ∀ a ∈ as, a.Placed source parent) :
    as.map (Attribute.moved move) = as.map (Attribute.moved other) :=
  List.map_congr_left fun a member => Attribute.moved_congr agree (placed a member)

/-- What holds of the parts of a header holds of its first and of its optional parts. -/
theorem moved_congr_option {es : List Expression} {e? : Option Expression}
    (placed : ∀ e ∈ es, e.Placed source parent) (isPart : ∀ e ∈ e?, e ∈ es) :
    e?.map (Expression.moved move) = e?.map (Expression.moved other) :=
  moved_congr_expressions agree fun e member => placed e (isPart e member)

theorem EachHeader.moved_congr {header : EachHeader}
    (placed : ∀ e ∈ header.parts, e.Placed source parent) :
    header.moved move = header.moved other := by
  have part (e? : Option Expression) (isPart : ∀ e ∈ e?, e ∈ header.parts) :=
    moved_congr_option agree placed isPart
  unfold EachHeader.moved
  rw [Expression.moved_congr agree (placed header.expression (by simp [EachHeader.parts])),
    part header.context fun e here => by simp_all [EachHeader.parts],
    part header.index fun e here => by simp_all [EachHeader.parts],
    part header.key fun e here => by simp_all [EachHeader.parts]]

theorem EachHead.moved_congr {head : EachHead} (lies : head.span.Lies source parent)
    (placed : ∀ e ∈ head.parts, e.Placed source head.span) :
    head.moved move = head.moved other := by
  have parts : ∀ e ∈ (EachHeader.mk head.expression head.context head.index head.key).parts,
      e.Placed source head.span := placed
  have header := EachHeader.moved_congr (agree.mono lies.inside.2) parts
  unfold EachHeader.moved at header
  simp only [EachHeader.mk.injEq] at header
  obtain ⟨expression, context, index, key⟩ := header
  unfold EachHead.moved
  rw [moved_congr_lies agree lies, expression, context, index, key]

theorem AwaitHead.moved_congr {head : AwaitHead} (lies : head.span.Lies source parent)
    (placed : ∀ e ∈ head.parts, e.Placed source head.span) :
    head.moved move = head.moved other := by
  have below := agree.mono lies.inside.2
  have part (e? : Option Expression) (isPart : ∀ e ∈ e?, e ∈ head.parts) :=
    moved_congr_option below placed isPart
  unfold AwaitHead.moved
  rw [moved_congr_lies agree lies,
    Expression.moved_congr below (placed head.expression (by simp [AwaitHead.parts])),
    part head.thenBinding fun e here => by simp_all [AwaitHead.parts],
    part head.catchBinding fun e here => by simp_all [AwaitHead.parts]]

end

mutual

theorem Node.moved_congr (node : Node) {parent : Span} (agree : AgreeUpTo parent.stop move other)
    (placed : node.Placed source parent) : node.moved move hole = node.moved other hole := by
  cases node with
  | element head children =>
    cases placed with
    | element span attributes inner =>
      have below := agree.mono span.inside.2
      unfold Node.moved ElementHead.moved
      rw [moved_congr_lies agree span, moved_congr_attributes below attributes,
        moved_congr_nodes children below inner]
  | text t =>
    cases placed with
    | text here =>
      exact congrArg Node.text (RawText.moved_congr agree (.of_slice? here.slice) here.inside)
  | comment c =>
    cases placed with
    | comment here => exact congrArg Node.comment (RawText.moved_congr agree here.fits here.inside)
  | mustache span e =>
    cases placed with
    | mustache lies inner =>
      unfold Node.moved
      rw [moved_congr_lies agree lies, Expression.moved_congr (agree.mono lies.inside.2) inner]
  | tag span kind e =>
    cases placed with
    | tag lies inner =>
      unfold Node.moved
      rw [moved_congr_lies agree lies, moved_congr_expressions (agree.mono lies.inside.2) inner]
  | ifBlock span condition consequent alternate =>
    cases placed with
    | ifBlock lies head inner others =>
      have below := agree.mono lies.inside.2
      unfold Node.moved
      rw [moved_congr_lies agree lies, Expression.moved_congr below head,
        moved_congr_nodes consequent below inner, alternate.moved_congr below others]
  | each head body fallback =>
    cases placed with
    | each lies header inner others =>
      have below := agree.mono lies.inside.2
      unfold Node.moved
      rw [EachHead.moved_congr agree lies header, moved_congr_nodes body below inner,
        moved_congr_branch fallback below others]
  | await head pending onThen onCatch =>
    cases placed with
    | await lies header inner thens catches =>
      have below := agree.mono lies.inside.2
      unfold Node.moved
      rw [AwaitHead.moved_congr agree lies header, moved_congr_nodes pending below inner,
        moved_congr_branch onThen below thens, moved_congr_branch onCatch below catches]
  | key span e body =>
    cases placed with
    | key lies head inner =>
      have below := agree.mono lies.inside.2
      unfold Node.moved
      rw [moved_congr_lies agree lies, Expression.moved_congr below head,
        moved_congr_nodes body below inner]

private theorem moved_congr_nodes (nodes : List Node) {parent : Span}
    (agree : AgreeUpTo parent.stop move other) (placed : ∀ node ∈ nodes, node.Placed source parent) :
    movedNodes move hole nodes = movedNodes other hole nodes := by
  cases nodes with
  | nil => rfl
  | cons node rest =>
    unfold movedNodes
    rw [node.moved_congr agree (placed node (.head _)),
      moved_congr_nodes rest agree fun n member => placed n (.tail _ member)]

private theorem moved_congr_branch (branch : Option (List Node)) {parent : Span}
    (agree : AgreeUpTo parent.stop move other)
    (placed : ∀ nodes ∈ branch, ∀ node ∈ nodes, node.Placed source parent) :
    movedBranch move hole branch = movedBranch other hole branch := by
  cases branch with
  | none => rfl
  | some nodes => exact congrArg some (moved_congr_nodes nodes agree (placed nodes rfl))

theorem Alternate.moved_congr (rest : Alternate) {parent : Span}
    (agree : AgreeUpTo parent.stop move other) (placed : rest.Placed source parent) :
    rest.moved move hole = rest.moved other hole := by
  cases rest with
  | absent => rfl
  | otherwise nodes =>
    cases placed with
    | otherwise inner => exact congrArg Alternate.otherwise (moved_congr_nodes nodes agree inner)
  | elseIf span condition consequent alternate =>
    cases placed with
    | elseIf lies head inner others =>
      have below := agree.mono lies.inside.2
      unfold Alternate.moved
      rw [moved_congr_lies agree lies, Expression.moved_congr below head,
        moved_congr_nodes consequent below inner, alternate.moved_congr below others]

end

section

variable (agree : AgreeUpTo stop move other)

include agree

private theorem moved_congr_arms {arms : List Arm} (placed : ArmsPlaced source stop arms) :
    arms.map (Arm.moved move hole) = arms.map (Arm.moved other hole) := by
  induction placed with
  | nil => rfl
  | @cons stop arm outer here before ih =>
    have inner := agree.mono here.began.ordered
    have same : arm.moved move hole = arm.moved other hole := by
      unfold Arm.moved
      rw [agree _ here.began.ordered, Expression.moved_congr agree here.condition,
        moved_congr_nodes _ agree here.consequent]
    rw [List.map_cons, List.map_cons, same, ih inner]

theorem Awaiting.moved_congr {a : Awaiting} (placed : a.Placed source stop) :
    a.moved move hole = a.moved other hole := by
  have branch (b : Option Expression × List Node)
      (binding : ∀ e ∈ b.1, e.Placed source ⟨a.start, stop⟩)
      (nodes : ∀ node ∈ b.2, node.Placed source ⟨a.start, stop⟩) :
      (b.1.map (Expression.moved move), movedNodes move hole b.2) =
        (b.1.map (Expression.moved other), movedNodes other hole b.2) := by
    rw [moved_congr_expressions agree binding, moved_congr_nodes b.2 agree nodes]
  unfold Awaiting.moved
  dsimp only
  rw [agree _ placed.began.ordered, Expression.moved_congr agree placed.subject,
    moved_congr_nodes _ agree placed.pending,
    Option.map_congr fun b here => branch b (placed.thenBinding b here) (placed.onThen b here),
    Option.map_congr fun b here => branch b (placed.catchBinding b here) (placed.onCatch b here)]

theorem Construct.moved_congr {construct : Construct} (placed : construct.Placed source stop) :
    construct.moved move hole = construct.moved other hole := by
  cases placed with
  | @element start name as began attributes =>
    simp only [Construct.moved]
    rw [agree start began.ordered, moved_congr_attributes agree attributes]
  | @arm start e earlier arms =>
    cases arms with
    | cons here before =>
      simp only [Construct.moved]
      rw [agree start here.began.ordered, Expression.moved_congr agree here.condition,
        moved_congr_arms (agree.mono here.began.ordered) before]
  | otherwise filled arms =>
    simp only [Construct.moved]
    rw [moved_congr_arms agree arms]
  | @eachBody start head began header =>
    simp only [Construct.moved]
    rw [agree start began.ordered, EachHeader.moved_congr agree header]
  | @eachFallback start head nodes began header body =>
    simp only [Construct.moved]
    rw [agree start began.ordered, EachHeader.moved_congr agree header, moved_congr_nodes _ agree body]
  | @awaitPending start e began subject =>
    simp only [Construct.moved]
    rw [agree start began.ordered, Expression.moved_congr agree subject]
  | awaitBranch before binding =>
    simp only [Construct.moved]
    rw [Awaiting.moved_congr agree before, moved_congr_expressions agree binding]
  | @key start e began subject =>
    simp only [Construct.moved]
    rw [agree start began.ordered, Expression.moved_congr agree subject]

theorem StackPlaced.moved_congr {nodes : List Node} {stack : List Frame}
    (placed : StackPlaced source stop nodes stack) :
    movedNodes move hole nodes = movedNodes other hole nodes ∧
      stack.map (Frame.moved move hole) = stack.map (Frame.moved other hole) := by
  induction placed with
  | top placed => exact ⟨moved_congr_nodes _ agree placed, rfl⟩
  | @frame stop nodes frame outer construct inner around ih =>
    obtain ⟨before, outside⟩ := ih (agree.mono construct.began.1.ordered)
    refine ⟨moved_congr_nodes _ agree inner, ?_⟩
    rw [List.map_cons, List.map_cons, outside]
    unfold Frame.moved
    rw [Construct.moved_congr agree construct, before]

theorem Script.moved_congr {script : Script} (placed : script.Placed source ⟨0, stop⟩) :
    script.moved move = script.moved other := by
  have below := agree.mono placed.span.inside.2
  unfold Script.moved
  rw [moved_congr_lies agree placed.span, moved_congr_lies below placed.openTag,
    moved_congr_lies below placed.closeTag, moved_congr_lies below placed.content,
    moved_congr_attributes (below.mono placed.openTag.inside.2) placed.attributes]

theorem Style.moved_congr {style : Style} (placed : style.Placed source ⟨0, stop⟩) :
    style.moved move hole = style.moved other hole := by
  unfold Style.moved
  rw [moved_congr_lies agree placed.span,
    moved_congr_lies (agree.mono placed.span.inside.2) placed.content]

end

/-- What has been read without errors up to a place. -/
theorem Reading.moved_congr {r : Reading} (placed : r.Placed source) (accepted : r.scan.errors = [])
    (agree : AgreeUpTo r.scan.pos move other) : r.moved move hole = r.moved other hole := by
  obtain ⟨nodes, stack⟩ : movedNodes move hole r.nodes = movedNodes other hole r.nodes ∧ _ :=
    placed.stack.moved_congr agree
  have script (script? : Option Script) (kept : ∀ script ∈ script?, script ∈ r.scripts) :
      script?.map (Script.moved move) = script?.map (Script.moved other) :=
    Option.map_congr fun s member => Script.moved_congr agree (placed.scripts s (kept s member))
  unfold Reading.moved Scan.moved
  rw [accepted, agree _ (Nat.le_refl _), nodes, stack,
    script r.moduleScript fun s here => List.mem_append_left _ (Option.mem_toList.2 here),
    script r.instanceScript fun s here => List.mem_append_right _ (Option.mem_toList.2 here),
    List.map_congr_left fun s member => Style.moved_congr agree (placed.styles s member)]
  rfl

end TypedSvelte.Markup
