import TypedSvelte.Proofs.Markup.PlacedDocuments
import TypedSvelte.Proofs.Position.Splicing

/-!
# The same text at another place

The pass over a component looks at characters only, so where the same text stands at another place,
it reads the same with all offsets moved. `finish_moved` says so for the rest of a source: the
offsets behind a place are moved by one distance (`Relocates`), those before it in any way that
keeps their order.

A moved document leaves out what stands in one hole, a text, a comment or a style that begins at a
given offset. Two documents that differ only there have the same moved form.
-/
namespace TypedSvelte.Markup

variable (move : Nat → Nat) (hole : Nat)

def Expression.moved (e : Expression) : Expression := { e with span := e.span.moved move }

def RawText.moved (t : RawText) : RawText := { t with span := t.span.moved move }

def ValuePart.moved : ValuePart → ValuePart
  | .text t => .text (t.moved move)
  | .expression e => .expression (e.moved move)

def PlainAttribute.moved (a : PlainAttribute) : PlainAttribute :=
  ⟨a.span.moved move, a.name, a.value.map (ValuePart.moved move)⟩

def Directive.moved (d : Directive) : Directive :=
  ⟨d.span.moved move, d.kind, d.name, d.modifiers, d.value.map (Expression.moved move)⟩

def Attribute.moved : Attribute → Attribute
  | .plain a => .plain (a.moved move)
  | .shorthand e => .shorthand (e.moved move)
  | .spread e => .spread (e.moved move)
  | .directive d => .directive (d.moved move)

def ElementHead.moved (head : ElementHead) : ElementHead :=
  ⟨head.span.moved move, head.name, head.kind, head.attributes.map (Attribute.moved move),
    head.selfClosing⟩

def EachHead.moved (head : EachHead) : EachHead :=
  ⟨head.span.moved move, head.expression.moved move, head.context.map (Expression.moved move),
    head.index.map (Expression.moved move), head.key.map (Expression.moved move)⟩

def AwaitHead.moved (head : AwaitHead) : AwaitHead :=
  ⟨head.span.moved move, head.expression.moved move, head.thenBinding.map (Expression.moved move),
    head.catchBinding.map (Expression.moved move)⟩

/-- The text, unless it begins at the hole. -/
def RawText.filled (t : RawText) : RawText :=
  if t.span.start = hole then ⟨Span.empty 0, ""⟩ else t.moved move

mutual

/-- The node with all offsets moved, but for what begins at the hole. -/
def Node.moved : Node → Node
  | .element head children => .element (head.moved move) (movedNodes children)
  | .text t => .text (t.filled move hole)
  | .comment c => .comment (c.filled move hole)
  | .mustache span e => .mustache (span.moved move) (e.moved move)
  | .tag span kind e => .tag (span.moved move) kind (e.map (Expression.moved move))
  | .ifBlock span condition consequent alternate =>
    .ifBlock (span.moved move) (condition.moved move) (movedNodes consequent) alternate.moved
  | .each head body fallback => .each (head.moved move) (movedNodes body) (movedBranch fallback)
  | .await head pending onThen onCatch =>
    .await (head.moved move) (movedNodes pending) (movedBranch onThen) (movedBranch onCatch)
  | .key span e body => .key (span.moved move) (e.moved move) (movedNodes body)

def movedNodes : List Node → List Node
  | [] => []
  | node :: rest => node.moved :: movedNodes rest

def movedBranch : Option (List Node) → Option (List Node)
  | none => none
  | some nodes => some (movedNodes nodes)

def Alternate.moved : Alternate → Alternate
  | .absent => .absent
  | .otherwise nodes => .otherwise (movedNodes nodes)
  | .elseIf span condition consequent alternate =>
    .elseIf (span.moved move) (condition.moved move) (movedNodes consequent) alternate.moved

end

def Script.moved (script : Script) : Script :=
  { span := script.span.moved move, openTag := script.openTag.moved move
    closeTag := script.closeTag.moved move, contentSpan := script.contentSpan.moved move
    lang := script.lang, context := script.context
    attributes := script.attributes.map (Attribute.moved move) }

/-- The style, unless its content begins at the hole. -/
def Style.moved (style : Style) : Style :=
  if style.contentSpan.start = hole then ⟨Span.empty 0, Span.empty 0⟩
  else ⟨style.span.moved move, style.contentSpan.moved move⟩

theorem movedNodes_eq (nodes : List Node) :
    movedNodes move hole nodes = nodes.map (Node.moved move hole) := by
  induction nodes with
  | nil => rfl
  | cons node rest ih => rw [movedNodes, List.map_cons, ih]

def EachHeader.moved (header : EachHeader) : EachHeader :=
  ⟨header.expression.moved move, header.context.map (Expression.moved move),
    header.index.map (Expression.moved move), header.key.map (Expression.moved move)⟩

def AwaitHeader.moved (header : AwaitHeader) : AwaitHeader :=
  ⟨header.expression.moved move,
    header.branch.map fun branch => (branch.1, branch.2.map (Expression.moved move))⟩

def Arm.moved (arm : Arm) : Arm :=
  ⟨move arm.start, arm.condition.moved move, movedNodes move hole arm.consequent⟩

def Awaiting.moved (a : Awaiting) : Awaiting :=
  let branch (b : Option Expression × List Node) : Option Expression × List Node :=
    (b.1.map (Expression.moved move), movedNodes move hole b.2)
  ⟨move a.start, a.expression.moved move, movedNodes move hole a.pending, a.onThen.map branch,
    a.onCatch.map branch⟩

def Construct.moved : Construct → Construct
  | .element start name attributes =>
    .element (move start) name (attributes.map (Attribute.moved move))
  | .arm start condition earlier =>
    .arm (move start) (condition.moved move) (earlier.map (Arm.moved move hole))
  | .otherwise arms => .otherwise (arms.map (Arm.moved move hole))
  | .eachBody start header => .eachBody (move start) (header.moved move)
  | .eachFallback start header body =>
    .eachFallback (move start) (header.moved move) (movedNodes move hole body)
  | .awaitPending start e => .awaitPending (move start) (e.moved move)
  | .awaitBranch done branch binding =>
    .awaitBranch (done.moved move hole) branch (binding.map (Expression.moved move))
  | .key start e => .key (move start) (e.moved move)

def Frame.moved (frame : Frame) : Frame :=
  ⟨frame.construct.moved move hole, movedNodes move hole frame.before⟩

def MarkupError.moved (e : MarkupError) : MarkupError := { e with span := e.span.moved move }

def Scan.moved (s : Scan) : Scan := ⟨move s.pos, s.rest, s.errors.map (MarkupError.moved move)⟩

def Reading.moved (r : Reading) : Reading :=
  { scan := r.scan.moved move, stack := r.stack.map (Frame.moved move hole)
    nodes := movedNodes move hole r.nodes, moduleScript := r.moduleScript.map (Script.moved move)
    instanceScript := r.instanceScript.map (Script.moved move)
    styles := r.styles.map (Style.moved move hole) }

def Reading.Closing.moved : Reading.Closing → Reading.Closing
  | .goesOn scan construct => .goesOn (scan.moved move) (construct.moved move hole)
  | .closed scan node => .closed (scan.moved move) (node.moved move hole)

variable {move hole}

theorem staticValue?_moved (a : PlainAttribute) : (a.moved move).staticValue? = a.staticValue? := by
  unfold PlainAttribute.staticValue? PlainAttribute.moved
  dsimp only
  rw [List.mapM_map]
  congr 2
  funext part
  cases part <;> rfl

private theorem plainAttributes_moved (attributes : List Attribute) :
    plainAttributes (attributes.map (Attribute.moved move)) =
      (plainAttributes attributes).map (PlainAttribute.moved move) := by
  unfold plainAttributes
  rw [List.filterMap_map, List.map_filterMap]
  congr 1
  funext a
  cases a <;> rfl

private theorem lang_moved (attributes : List Attribute) :
    ScriptLang.ofAttributes (attributes.map (Attribute.moved move)) =
      ScriptLang.ofAttributes attributes := by
  unfold ScriptLang.ofAttributes
  dsimp only
  rw [plainAttributes_moved, List.any_map]
  congr 3
  funext a
  rw [Function.comp, staticValue?_moved]
  rfl

private theorem context_moved (attributes : List Attribute) :
    ScriptContext.ofAttributes (attributes.map (Attribute.moved move)) =
      ScriptContext.ofAttributes attributes := by
  unfold ScriptContext.ofAttributes
  dsimp only
  rw [plainAttributes_moved, List.any_map]
  congr 3
  funext a
  have value : (a.moved move).value.isEmpty = a.value.isEmpty := List.isEmpty_map
  rw [Function.comp, staticValue?_moved, value]
  rfl

namespace Expression

private theorem moved_ofText {offset : Nat} (relocates : Relocates move offset) (raw : List Char) :
    ofText (move offset) raw = (ofText offset raw).moved move := by
  unfold ofText moved Span.moved
  dsimp only
  rw [relocates.carries, Nat.add_assoc offset, relocates.carries, Nat.add_assoc]

variable {e : Expression} (relocates : Relocates move e.span.start)

include relocates

private theorem moved_slice? (start stop : Nat) :
    (e.moved move).slice? start stop = (e.slice? start stop).map (Expression.moved move) := by
  unfold slice?
  dsimp only [moved, Span.moved]
  rw [← relocates.carries, moved_ofText (relocates.add start)]
  split
  · rename_i blank
    rw [if_pos (by exact blank)]
    rfl
  · rename_i filled
    rw [if_neg (by exact filled)]
    rfl

private theorem moved_after? (start : Nat) :
    (e.moved move).after? start = (e.after? start).map (Expression.moved move) :=
  moved_slice? relocates _ _

private theorem moved_splitBinding (start stop : Nat) : splitBinding (e.moved move) start stop =
    ((splitBinding e start stop).1.map (Expression.moved move),
      (splitBinding e start stop).2.map (Expression.moved move)) := by
  have same : (e.moved move).text = e.text := rfl
  unfold splitBinding
  rw [same]
  cases findComma? ((Span.mk start stop).text e.text).toList with
  | some comma =>
    dsimp only
    rw [moved_slice? relocates, moved_slice? relocates]
  | none =>
    dsimp only
    rw [moved_slice? relocates]
    rfl

omit relocates in
private theorem moved_getD (e? : Option Expression) (e : Expression) :
    (e?.map (Expression.moved move)).getD (e.moved move) = (e?.getD e).moved move := by
  cases e? <;> rfl

private theorem moved_eachHeader : EachHeader.split (e.moved move) = (EachHeader.split e).moved move := by
  have chars : (e.moved move).chars = e.chars := rfl
  have text : (e.moved move).text = e.text := rfl
  unfold EachHeader.split
  rw [chars, text]
  generalize findWord? e.chars "as" = word?
  cases word? with
  | none => rfl
  | some word =>
    dsimp only
    generalize trailingGroup? _ = group?
    cases group? with
    | some group =>
      dsimp only
      rw [moved_slice? relocates, moved_splitBinding relocates, moved_slice? relocates, moved_getD,
        EachHeader.moved]
    | none =>
      dsimp only
      rw [moved_splitBinding relocates, moved_slice? relocates, moved_getD, EachHeader.moved,
        Option.map_none]

private theorem moved_awaitHeader : AwaitHeader.split (e.moved move) = (AwaitHeader.split e).moved move := by
  have chars : (e.moved move).chars = e.chars := rfl
  unfold AwaitHeader.split
  dsimp only
  rw [chars]
  generalize findWord? e.chars AwaitBranch.then_.word = thenWord?
  generalize findWord? e.chars AwaitBranch.catch_.word = catchWord?
  have at? (branch : AwaitBranch) (word : Span) :
      AwaitHeader.mk (((e.moved move).slice? 0 word.start).getD (e.moved move))
          (some (branch, (e.moved move).after? word.stop)) =
        (AwaitHeader.mk ((e.slice? 0 word.start).getD e)
          (some (branch, e.after? word.stop))).moved move := by
    rw [moved_slice? relocates, moved_getD, moved_after? relocates, AwaitHeader.moved,
      Option.map_some]
  cases thenWord? with
  | some word => exact at? .then_ word
  | none =>
    cases catchWord? with
    | some word => exact at? .catch_ word
    | none => rfl

private theorem moved_elseIfCondition? :
    elseIfCondition? (e.moved move) = (elseIfCondition? e).map (Expression.moved move) := by
  have chars : (e.moved move).chars = e.chars := rfl
  unfold elseIfCondition?
  rw [chars]
  cases findWord? e.chars "if" with
  | none => rfl
  | some word =>
    dsimp only
    split
    · exact moved_after? relocates _
    · rfl

end Expression

namespace Scan

variable {s t : Scan}

private theorem moved_fail (mono : Monotone move) (kind : ErrorKind) (start : Nat) :
    (s.moved move).fail kind (move start) = (s.fail kind start).moved move := by
  have span : max (move s.pos) (move start) = move (max s.pos start) := mono.map_max.symm
  unfold fail moved
  dsimp only
  rw [span]
  rfl

section

variable (relocates : Relocates move s.pos)

include relocates

private theorem relocates_of_reaches (reached : s.Reaches t) : Relocates move t.pos := by
  obtain ⟨passed, _, pos⟩ := reached
  exact pos ▸ relocates.add _

private theorem moved_skip (n : Nat) : (s.moved move).skip n = (s.skip n).moved move := by
  unfold skip moved
  dsimp only
  rw [relocates.carries]

private theorem moved_skipAll : (s.moved move).skipAll = s.skipAll.moved move := moved_skip relocates _

private theorem moved_skipBlank : (s.moved move).skipBlank = s.skipBlank.moved move :=
  moved_skip relocates _

private theorem moved_skipPast (c : Char) : (s.moved move).skipPast c = (s.skipPast c).moved move := by
  have rest : (s.moved move).rest = s.rest := rfl
  unfold skipPast
  rw [rest]
  cases s.rest.findIdx? (· == c) with
  | some n => exact moved_skip relocates _
  | none => exact moved_skip relocates _

private theorem moved_word : (s.moved move).word = (s.word.1, s.word.2.moved move) :=
  congrArg (Prod.mk s.word.1) (moved_skip relocates _)

private theorem moved_rawText (n : Nat) : (s.moved move).rawText n = (s.rawText n).moved move := by
  unfold rawText
  rw [moved_skip relocates]
  rfl

private theorem moved_expression (opening : Nat) : (s.moved move).expression (move opening) =
    ((s.expression opening).1.map (Expression.moved move), (s.expression opening).2.moved move) := by
  have rest : (s.moved move).rest = s.rest := rfl
  unfold expression
  rw [rest]
  cases closingBrace? s.rest with
  | some n =>
    dsimp only
    rw [moved_skip relocates]
    exact congrArg (Prod.mk · _) (congrArg some (Expression.moved_ofText relocates _))
  | none =>
    dsimp only
    rw [moved_skipAll relocates, moved_fail relocates.mono]
    rfl

private theorem relocates_of_expression {opening : Nat} {e : Expression}
    (found : (s.expression opening).1 = some e) : Relocates move e.span.start := by
  unfold expression at found
  split at found
  · cases found
    exact relocates.add _
  · cases found

private theorem moved_quotedParts (quote : Char) (opening : Nat) :
    (s.moved move).quotedParts quote (move opening) =
      ((s.quotedParts quote opening).1.map (ValuePart.moved move),
        (s.quotedParts quote opening).2.moved move) := by
  fun_induction quotedParts s quote opening with
  | case1 s ended =>
    rw [quotedParts.eq_def]
    split
    · exact congrArg (Prod.mk []) (moved_fail relocates.mono _ _)
    · rename_i c rest ahead
      exact absurd (ahead.symm.trans ended) (List.cons_ne_nil c rest)
  | case2 s c rest ahead closes =>
    rw [quotedParts.eq_def]
    split
    · rename_i ended
      exact absurd (ahead.symm.trans ended) (List.cons_ne_nil c rest)
    · rename_i d other here
      cases ahead.symm.trans here
      rw [if_pos closes, moved_skip relocates]
      rfl
  | case3 s c rest ahead closes brace shorter more ih =>
    rw [quotedParts.eq_def]
    split
    · rename_i ended
      exact absurd (ahead.symm.trans ended) (List.cons_ne_nil c rest)
    · rename_i d other here
      cases ahead.symm.trans here
      have toPart : s.Reaches ((s.skip 1).expression s.pos).2 :=
        (s.reaches_skip 1).trans (reaches_expression _ _)
      have expression : ((s.moved move).skip 1).expression (s.moved move).pos =
          (((s.skip 1).expression s.pos).1.map (Expression.moved move),
            ((s.skip 1).expression s.pos).2.moved move) := by
        rw [moved_skip relocates]
        exact moved_expression (relocates_of_reaches relocates (s.reaches_skip 1)) _
      rw [if_neg closes, if_pos brace]
      dsimp only
      rw [expression, ih (relocates_of_reaches relocates toPart)]
      cases ((s.skip 1).expression s.pos).1 <;> rfl
  | case4 s c rest ahead closes brace n shorter more ih =>
    rw [quotedParts.eq_def]
    split
    · rename_i ended
      exact absurd (ahead.symm.trans ended) (List.cons_ne_nil c rest)
    · rename_i d other here
      cases ahead.symm.trans here
      rw [if_neg closes, if_neg brace]
      dsimp only
      have length : 1 + ((s.moved move).rest.tail.takeWhile
          fun d => d != quote && d != '{').length = n := rfl
      rw [length, moved_skip relocates, moved_rawText relocates,
        ih (relocates_of_reaches relocates (s.reaches_skip n))]
      rfl

private theorem moved_attributeValue : (s.moved move).attributeValue =
    (s.attributeValue.1.map (ValuePart.moved move), s.attributeValue.2.moved move) := by
  have toBody := relocates_of_reaches relocates (s.reaches_skip 1)
  have rest : (s.moved move).rest = s.rest := rfl
  have pos : (s.moved move).pos = move s.pos := rfl
  unfold attributeValue
  rw [rest, pos]
  split
  · rw [moved_skip relocates]
    exact moved_quotedParts toBody _ _
  · rw [moved_skip relocates]
    exact moved_quotedParts toBody _ _
  · dsimp only
    rw [moved_skip relocates, moved_expression toBody]
    cases ((s.skip 1).expression s.pos).1 <;> rfl
  · dsimp only
    rw [moved_rawText relocates, moved_skip relocates]
    rfl

private theorem moved_optionalValue : (s.moved move).optionalValue =
    (s.optionalValue.1.map (ValuePart.moved move), s.optionalValue.2.moved move) := by
  have toSign := relocates_of_reaches relocates s.reaches_skipBlank
  have toBlank := relocates_of_reaches toSign (reaches_skip _ 1)
  have toValue := relocates_of_reaches toBlank (reaches_skipBlank _)
  have sign : (s.skipBlank.moved move).startsWith "=" = s.skipBlank.startsWith "=" := rfl
  unfold optionalValue
  rw [moved_skipBlank relocates, sign, moved_skip toSign, moved_skipBlank toBlank,
    moved_attributeValue toValue]
  split <;> rfl

omit relocates in
private theorem moved_namedAttribute (span : Span) (name : String) (value : List ValuePart) :
    namedAttribute (span.moved move) name (value.map (ValuePart.moved move)) =
      (namedAttribute span name value).moved move := by
  have sole : soleExpression? (value.map (ValuePart.moved move)) =
      (soleExpression? value).map (Expression.moved move) := by
    match value with
    | [] => rfl
    | [.text t] => rfl
    | [.expression e] => rfl
    | .text t :: part :: parts => rfl
    | .expression e :: part :: parts => rfl
  unfold namedAttribute
  dsimp only
  split
  · rw [sole]
    rfl
  · rfl

private theorem moved_attributeNamed (n : Nat) : (s.moved move).attributeNamed n =
    ((s.attributeNamed n).1.moved move, (s.attributeNamed n).2.moved move) := by
  have toValue := relocates_of_reaches relocates (s.reaches_skip n)
  unfold attributeNamed
  rw [moved_skip relocates, moved_optionalValue toValue]
  exact congrArg (Prod.mk · _)
    (moved_namedAttribute ⟨s.pos, (s.skip n).optionalValue.2.pos⟩ _ (s.skip n).optionalValue.1)

omit relocates in
private theorem moved_bracedAttribute? {e : Expression} (relocates : Relocates move e.span.start) :
    bracedAttribute? (e.moved move) = (bracedAttribute? e).map (Attribute.moved move) := by
  have text : (e.moved move).text = e.text := rfl
  unfold bracedAttribute?
  rw [text, Expression.moved_after? relocates]
  split
  · cases e.after? 3 <;> rfl
  · rfl

private theorem moved_readAttribute : (s.moved move).readAttribute =
    (s.readAttribute.1.map (Attribute.moved move), s.readAttribute.2.moved move) := by
  have toBody := relocates_of_reaches relocates (s.reaches_skip 1)
  have brace : (s.moved move).startsWith "\x7b" = s.startsWith "\x7b" := rfl
  have pos : (s.moved move).pos = move s.pos := rfl
  have count : (s.moved move).count (fun c => !endsAttributeName c) =
      s.count fun c => !endsAttributeName c := rfl
  unfold readAttribute
  rw [brace, pos, count, moved_skip relocates, moved_expression toBody]
  split
  · dsimp only
    cases found : ((s.skip 1).expression s.pos).1 with
    | none => rfl
    | some e =>
      exact congrArg (Prod.mk · _) (moved_bracedAttribute? (relocates_of_expression toBody found))
  · split
    · rfl
    · rw [moved_attributeNamed relocates]
      rfl

private theorem moved_attributes : (s.moved move).attributes =
    (s.attributes.1.map (Attribute.moved move), s.attributes.2.moved move) := by
  fun_induction attributes s with
  | case1 s here ended =>
    rw [attributes, dif_pos]
    · rw [moved_skipBlank relocates]
      rfl
    · rw [moved_skipBlank relocates]
      exact ended
  | case2 s here ended atEnd =>
    rw [attributes, dif_neg, if_pos]
    · rw [moved_skipBlank relocates]
      rfl
    · rw [moved_skipBlank relocates]
      exact atEnd
    · rw [moved_skipBlank relocates]
      exact ended
  | case3 s here ended atEnd shorter more ih =>
    have toAttribute := relocates_of_reaches relocates s.reaches_skipBlank
    have toMore := relocates_of_reaches toAttribute (reaches_readAttribute _)
    rw [attributes, dif_neg, if_neg]
    · dsimp only
      rw [moved_skipBlank relocates, moved_readAttribute toAttribute, ih toMore, List.map_append]
      cases s.skipBlank.readAttribute.1 <;> rfl
    · rw [moved_skipBlank relocates]
      exact atEnd
    · rw [moved_skipBlank relocates]
      exact ended

end

end Scan

namespace Reading

open Scan

variable {r : Reading}

theorem moved_add {scan : Scan} {node : Node} : (r.add scan node).moved move hole =
    (r.moved move hole).add (scan.moved move) (node.moved move hole) := rfl

private theorem moved_moveTo {scan : Scan} : (r.moveTo scan).moved move hole =
    (r.moved move hole).moveTo (scan.moved move) := rfl

private theorem filled_of_ne {t : RawText} (outside : t.span.start ≠ hole) :
    t.filled move hole = t.moved move := if_neg outside

section

-- what is read now begins behind the hole
variable (relocates : Relocates move r.scan.pos) (behind : hole < r.scan.pos)

include relocates behind

private theorem moved_readText : (r.moved move hole).readText = r.readText.moved move hole := by
  unfold readText
  dsimp only
  rw [moved_add, Node.moved, filled_of_ne (by exact Nat.ne_of_gt behind), ← moved_rawText relocates,
    ← moved_skip relocates]
  rfl

private theorem moved_readComment : (r.moved move hole).readComment = r.readComment.moved move hole := by
  have rest : ((r.moved move hole).scan.skip 4).rest = (r.scan.skip 4).rest := rfl
  have toBody := relocates_of_reaches relocates (r.scan.reaches_skip 4)
  have skip : (r.moved move hole).scan.skip 4 = (r.scan.skip 4).moved move :=
    moved_skip relocates 4
  unfold readComment
  dsimp only
  rw [rest]
  generalize findText? _ _ = found
  cases found with
  | some n =>
    dsimp only
    rw [moved_add, Node.moved, filled_of_ne (by exact Nat.ne_of_gt behind), skip, moved_skip toBody]
    rfl
  | none =>
    dsimp only
    rw [moved_add, Node.moved, filled_of_ne (by exact Nat.ne_of_gt behind), skip,
      moved_skipAll toBody, ← moved_fail relocates.mono]
    rfl

omit behind

private theorem moved_readMustache : (r.moved move hole).readMustache = r.readMustache.moved move hole := by
  have toBody := relocates_of_reaches relocates (r.scan.reaches_skip 1)
  have skip : (r.moved move hole).scan.skip 1 = (r.scan.skip 1).moved move :=
    moved_skip relocates 1
  have pos : (r.moved move hole).scan.pos = move r.scan.pos := rfl
  unfold readMustache
  dsimp only
  rw [skip, pos, moved_expression toBody]
  cases ((r.scan.skip 1).expression r.scan.pos).1 with
  | none => rfl
  | some e =>
    have isEmpty : (e.moved move).isEmpty = e.isEmpty := rfl
    dsimp only [Option.map_some]
    rw [isEmpty]
    split
    · rw [moved_moveTo, ← moved_fail relocates.mono]
    · rfl

private theorem moved_readTag : (r.moved move hole).readTag = r.readTag.moved move hole := by
  have toWord := relocates_of_reaches relocates (r.scan.reaches_skip 2)
  have toBody := relocates_of_reaches toWord (reaches_word _)
  have skip : (r.moved move hole).scan.skip 2 = (r.scan.skip 2).moved move :=
    moved_skip relocates 2
  have pos : (r.moved move hole).scan.pos = move r.scan.pos := rfl
  unfold readTag
  dsimp only
  rw [skip, pos, moved_word toWord]
  dsimp only
  rw [moved_expression toBody]
  cases ((r.scan.skip 2).word.2.expression r.scan.pos).1 with
  | none => rfl
  | some e =>
    have isEmpty : (e.moved move).isEmpty = e.isEmpty := rfl
    cases tagKind? (r.scan.skip 2).word.1 with
    | none =>
      dsimp only [Option.map_some]
      rw [moved_moveTo, ← moved_fail relocates.mono]
    | some kind =>
      dsimp only [Option.map_some]
      rw [moved_add, Node.moved, isEmpty]
      split <;> rfl

omit relocates in
private theorem moved_blockConstruct? {start : Nat} {word : String} {header : Expression}
    (relocates : Relocates move header.span.start) :
    blockConstruct? (move start) word (header.moved move) =
      (blockConstruct? start word header).map (Construct.moved move hole) := by
  unfold blockConstruct?
  split
  · rfl
  · rw [Expression.moved_eachHeader relocates]
    rfl
  · rw [Expression.moved_awaitHeader relocates]
    dsimp only [AwaitHeader.moved]
    cases (AwaitHeader.split header).branch <;> rfl
  · rfl
  · rfl

private theorem moved_readBlock : (r.moved move hole).readBlock = r.readBlock.moved move hole := by
  have toWord := relocates_of_reaches relocates (r.scan.reaches_skip 2)
  have toBody := relocates_of_reaches toWord (reaches_word _)
  have skip : (r.moved move hole).scan.skip 2 = (r.scan.skip 2).moved move :=
    moved_skip relocates 2
  have pos : (r.moved move hole).scan.pos = move r.scan.pos := rfl
  unfold readBlock
  dsimp only
  rw [skip, pos, moved_word toWord]
  dsimp only
  rw [moved_expression toBody]
  cases found : ((r.scan.skip 2).word.2.expression r.scan.pos).1 with
  | none => rfl
  | some header =>
    dsimp only [Option.map_some]
    rw [moved_blockConstruct? (relocates_of_expression toBody found)]
    cases blockConstruct? r.scan.pos (r.scan.skip 2).word.1 header with
    | some construct => rfl
    | none =>
      dsimp only [Option.map_none]
      rw [moved_moveTo, ← moved_fail relocates.mono]

omit relocates in
private theorem moved_addScript (mono : Monotone move) (script : Script) :
    (r.moved move hole).addScript (script.moved move) = (r.addScript script).moved move hole := by
  have context : (script.moved move).context = script.context := rfl
  have some? (script? : Option Script) : (script?.map (Script.moved move)).isSome = script?.isSome :=
    Option.isSome_map
  have duplicate (kind : ErrorKind) : (r.moved move hole).moveTo
      ((r.moved move hole).scan.fail kind (script.moved move).span.start) =
        (r.moveTo (r.scan.fail kind script.span.start)).moved move hole := by
    rw [moved_moveTo, ← moved_fail mono]
    rfl
  unfold addScript
  rw [context, duplicate, duplicate]
  split
  · change (if (r.moduleScript.map (Script.moved move)).isSome then _ else _) = _
    rw [some?]
    split <;> rfl
  · change (if (r.instanceScript.map (Script.moved move)).isSome then _ else _) = _
    rw [some?]
    split <;> rfl

omit relocates in
/-- The end of a script or style whose closing tag begins at `closing` and ends at `last`. -/
theorem moved_rawEnd {opened closing last : Scan} {start : Nat} (behind : hole < opened.pos)
    (mono : Monotone move) (name : String) (attributes : List Attribute) (text : String) :
    (if !(r.moved move hole).stack.isEmpty then
      ((r.moved move hole).moveTo (last.moved move)).add (last.moved move)
        (.element ⟨⟨move start, move last.pos⟩, name, .html, attributes.map (Attribute.moved move),
          false⟩ [.text ⟨⟨move opened.pos, move closing.pos⟩, text⟩])
    else if name == "style" then
      { (r.moved move hole).moveTo (last.moved move) with
        styles := ⟨⟨move start, move last.pos⟩, ⟨move opened.pos, move closing.pos⟩⟩ ::
          (r.moved move hole).styles }
    else
      ((r.moved move hole).moveTo (last.moved move)).addScript
        { span := ⟨move start, move last.pos⟩, openTag := ⟨move start, move opened.pos⟩
          closeTag := ⟨move closing.pos, move last.pos⟩
          contentSpan := ⟨move opened.pos, move closing.pos⟩
          lang := ScriptLang.ofAttributes (attributes.map (Attribute.moved move))
          context := ScriptContext.ofAttributes (attributes.map (Attribute.moved move))
          attributes := attributes.map (Attribute.moved move) }) =
    (if !r.stack.isEmpty then
      (r.moveTo last).add last (.element ⟨⟨start, last.pos⟩, name, .html, attributes, false⟩
        [.text ⟨⟨opened.pos, closing.pos⟩, text⟩])
    else if name == "style" then
      { r.moveTo last with
        styles := ⟨⟨start, last.pos⟩, ⟨opened.pos, closing.pos⟩⟩ :: r.styles }
    else
      (r.moveTo last).addScript
        { span := ⟨start, last.pos⟩, openTag := ⟨start, opened.pos⟩
          closeTag := ⟨closing.pos, last.pos⟩, contentSpan := ⟨opened.pos, closing.pos⟩
          lang := ScriptLang.ofAttributes attributes
          context := ScriptContext.ofAttributes attributes, attributes }).moved move hole := by
  have outside : opened.pos ≠ hole := Nat.ne_of_gt behind
  have isEmpty : (r.moved move hole).stack.isEmpty = r.stack.isEmpty := List.isEmpty_map
  rw [isEmpty]
  split
  · rw [moved_add, Node.moved, movedNodes, Node.moved, filled_of_ne (by exact outside)]
    rfl
  · split
    · have style : Style.moved move hole ⟨⟨start, last.pos⟩, ⟨opened.pos, closing.pos⟩⟩ =
          ⟨⟨move start, move last.pos⟩, ⟨move opened.pos, move closing.pos⟩⟩ := if_neg outside
      rw [← style]
      rfl
    · rw [lang_moved, context_moved, ← moved_moveTo]
      let script : Script :=
        { span := ⟨start, last.pos⟩, openTag := ⟨start, opened.pos⟩
          closeTag := ⟨closing.pos, last.pos⟩, contentSpan := ⟨opened.pos, closing.pos⟩
          lang := ScriptLang.ofAttributes attributes
          context := ScriptContext.ofAttributes attributes, attributes }
      have made : ((r.moveTo last).moved move hole).addScript (script.moved move) =
          ((r.moveTo last).addScript script).moved move hole := moved_addScript mono script
      exact made

private theorem moved_readRaw (behind : hole < r.scan.pos) {start : Nat} (name : String)
    (attributes : List Attribute) :
    (r.moved move hole).readRaw (move start) name (attributes.map (Attribute.moved move)) =
      (r.readRaw start name attributes).moved move hole := by
  have rest : (r.moved move hole).scan.rest = r.scan.rest := rfl
  have pos : (r.moved move hole).scan.pos = move r.scan.pos := rfl
  have skip (n : Nat) : (r.moved move hole).scan.skip n = (r.scan.skip n).moved move :=
    moved_skip relocates n
  have toClosing (n : Nat) := relocates_of_reaches relocates (r.scan.reaches_skip n)
  unfold readRaw
  dsimp only
  rw [rest]
  cases findText? ("</" ++ name).toList r.scan.rest with
  | some n =>
    dsimp only
    rw [skip, moved_skipPast (toClosing _), pos]
    exact moved_rawEnd behind relocates.mono name attributes _
  | none =>
    dsimp only
    rw [skip, moved_fail relocates.mono, pos]
    exact moved_rawEnd behind relocates.mono name attributes _

omit relocates in
private theorem moved_tagEnd {s : Scan} (relocates : Relocates move s.pos) (name : String) (start : Nat) :
    tagEnd (s.moved move) name (move start) =
      ((tagEnd s name start).1, (tagEnd s name start).2.moved move) := by
  have ahead (literal : String) : (s.moved move).startsWith literal = s.startsWith literal := rfl
  unfold tagEnd
  rw [ahead, ahead, moved_skip relocates, moved_skip relocates, moved_fail relocates.mono]
  split
  · rfl
  · split <;> rfl

private theorem moved_readElement (behind : hole < r.scan.pos) :
    (r.moved move hole).readElement = r.readElement.moved move hole := by
  have skip : (r.moved move hole).scan.skip 1 = (r.scan.skip 1).moved move :=
    moved_skip relocates 1
  have pos : (r.moved move hole).scan.pos = move r.scan.pos := rfl
  have toName := relocates_of_reaches relocates (r.scan.reaches_skip 1)
  unfold readElement
  dsimp only
  rw [skip, pos]
  have count (p : Char → Bool) : ((r.scan.skip 1).moved move).count p = (r.scan.skip 1).count p := rfl
  have rest : ((r.scan.skip 1).moved move).rest = (r.scan.skip 1).rest := rfl
  rw [count, rest]
  generalize (r.scan.skip 1).count _ = n
  have toTag := relocates_of_reaches toName (reaches_skip _ n)
  have toEnd := relocates_of_reaches toTag (reaches_attributes _)
  generalize String.ofList ((r.scan.skip 1).rest.take n) = name
  rw [moved_skip toName, moved_attributes toTag]
  dsimp only
  rw [moved_tagEnd toEnd]
  have onward := (((r.scan.reaches_skip 1).trans (reaches_skip _ n)).trans
    (reaches_attributes _)).trans (reaches_tagEnd _ name r.scan.pos)
  generalize ((r.scan.skip 1).skip n).attributes.1 = attributes
  generalize tagEnd _ name r.scan.pos = ended at onward ⊢
  obtain ⟨closed, last⟩ := ended
  dsimp only at onward ⊢
  rw [← moved_moveTo]
  split
  · exact moved_readRaw (r := r.moveTo last) (relocates_of_reaches relocates onward)
      (Nat.lt_of_lt_of_le behind onward.pos_le) name attributes
  · split <;> rfl

private theorem moved_open (behind : hole < r.scan.pos) :
    (r.moved move hole).open_ = r.open_.moved move hole := by
  have ahead (literal : String) :
      (r.moved move hole).scan.startsWith literal = r.scan.startsWith literal := rfl
  have atTag : (r.moved move hole).scan.atTag = r.scan.atTag := rfl
  unfold open_
  rw [ahead, ahead, ahead, ahead, atTag, moved_readComment relocates behind,
    moved_readElement relocates behind, moved_readBlock relocates, moved_readTag relocates,
    moved_readMustache relocates, moved_readText relocates behind]
  simp only [apply_ite (Reading.moved move hole)]

end

section

variable {s : Scan} (relocates : Relocates move s.pos)

include relocates

private theorem moved_continuation : continuation (s.moved move) =
    ((continuation s).1.map (Expression.moved move), (continuation s).2.moved move) := by
  have toWord := relocates_of_reaches relocates (s.reaches_skip 2)
  have toBody := relocates_of_reaches toWord (reaches_word _)
  have pos : (s.moved move).pos = move s.pos := rfl
  unfold continuation
  dsimp only
  rw [moved_skip relocates, moved_word toWord]
  dsimp only
  rw [pos, moved_expression toBody]
  dsimp only
  rw [Option.filter_map]
  rfl

private theorem relocates_of_continuation {rest : Expression} (found : (continuation s).1 = some rest) :
    Relocates move rest.span.start := by
  have toWord := relocates_of_reaches relocates (s.reaches_skip 2)
  have toBody := relocates_of_reaches toWord (reaches_word _)
  exact relocates_of_expression toBody (Option.filter_eq_some_iff.1 found).1

private theorem moved_closeTag (name : String) (start : Nat) :
    closeTag (s.moved move) name (move start) = (closeTag s name start).moved move := by
  have ahead : (s.moved move).startsWith "</" = s.startsWith "</" := rfl
  have rest : (s.moved move).rest = s.rest := rfl
  unfold closeTag
  dsimp only
  rw [ahead, rest, moved_skipPast relocates, moved_fail relocates.mono, moved_fail relocates.mono]
  split
  · split <;> rfl
  · rfl

private theorem moved_closeBlock (block : String) (start : Nat) :
    closeBlock (s.moved move) block (move start) = (closeBlock s block start).moved move := by
  have ahead : (s.moved move).atWord "\x7b/" block = s.atWord "\x7b/" block := rfl
  unfold closeBlock
  rw [ahead, moved_skipPast relocates, moved_fail relocates.mono]
  split <;> rfl

omit relocates in
private theorem moved_conditionNode (zero : move 0 = 0) (stop close : Nat) (alternate : Alternate)
    (arms : List Arm) :
    conditionNode (move stop) (move close) (alternate.moved move hole)
        (arms.map (Arm.moved move hole)) =
      (conditionNode stop close alternate arms).moved move hole := by
  induction arms generalizing alternate with
  | nil =>
    change Node.text default = Node.text (RawText.filled move hole default)
    have unmoved : (default : RawText).moved move = default := by
      change RawText.mk ⟨move 0, move 0⟩ "" = default
      rw [zero]
      rfl
    unfold RawText.filled
    rw [unmoved]
    split <;> rfl
  | cons arm outer ih =>
    cases outer with
    | nil => rfl
    | cons next more => exact ih (.elseIf ⟨arm.start, stop⟩ arm.condition arm.consequent alternate)

omit relocates in
private theorem moved_outermostStart (zero : move 0 = 0) (arms : List Arm) :
    outermostStart (arms.map (Arm.moved move hole)) = move (outermostStart arms) := by
  unfold outermostStart
  rw [List.getLast?_map]
  cases arms.getLast? with
  | none => exact zero.symm
  | some arm => rfl

private theorem moved_closeCondition (arms : List Arm) (alternate : Alternate) :
    closeCondition (s.moved move) (arms.map (Arm.moved move hole)) (alternate.moved move hole) =
      (closeCondition s arms alternate).moved move hole := by
  unfold closeCondition
  dsimp only
  rw [moved_outermostStart relocates.zero, moved_closeBlock relocates]
  exact congrArg (Closing.closed _) (moved_conditionNode relocates.zero _ _ _ _)

omit relocates in
private theorem lacks_moved (a : Awaiting) (branch : AwaitBranch) :
    (a.moved move hole).lacks branch = a.lacks branch := by
  cases branch
  · exact Option.isNone_map
  · exact Option.isNone_map

omit relocates in
private theorem put_moved (a : Awaiting) (branch : AwaitBranch) (binding : Option Expression)
    (nodes : List Node) :
    (a.moved move hole).put branch (binding.map (Expression.moved move))
        (movedNodes move hole nodes) =
      (a.put branch binding nodes).moved move hole := by
  cases branch <;> rfl

omit relocates in
private theorem node_moved (a : Awaiting) (stop : Nat) :
    (a.moved move hole).node (move stop) = (a.node stop).moved move hole := by
  obtain ⟨start, e, pending, onThen, onCatch⟩ := a
  cases onThen <;> cases onCatch <;> rfl

private theorem moved_closeAwait (a : Awaiting) :
    closeAwait (s.moved move) (a.moved move hole) = (closeAwait s a).moved move hole := by
  have next : nextBranch? (s.moved move) (a.moved move hole) = nextBranch? s a := by
    unfold nextBranch?
    simp only [lacks_moved]
    rfl
  unfold closeAwait
  rw [next]
  cases nextBranch? s a with
  | some branch =>
    dsimp only
    rw [moved_continuation relocates]
    rfl
  | none =>
    have start : (a.moved move hole).start = move a.start := rfl
    dsimp only
    rw [start, moved_closeBlock relocates]
    exact congrArg (Closing.closed _) (node_moved _ _)

private theorem moved_close (nodes : List Node) (construct : Construct) :
    close (s.moved move) (movedNodes move hole nodes) (construct.moved move hole) =
      (close s nodes construct).moved move hole := by
  have ahead : (s.moved move).atWord "\x7b:" "else" = s.atWord "\x7b:" "else" := rfl
  have onward := relocates_of_reaches relocates (reaches_continuation s)
  cases construct with
  | element start name attributes =>
    simp only [Construct.moved, close]
    rw [moved_closeTag relocates]
    rfl
  | arm start condition earlier =>
    simp only [Construct.moved, close]
    rw [ahead, moved_continuation relocates]
    split
    · dsimp only
      cases found : (continuation s).1 with
      | none => rfl
      | some rest =>
        dsimp only [Option.map_some]
        rw [Expression.moved_elseIfCondition? (relocates_of_continuation relocates found)]
        cases elseIfCondition? rest with
        | some next => rfl
        | none =>
          have pos : (s.moved move).pos = move s.pos := rfl
          have text : (rest.moved move).text = rest.text := rfl
          dsimp only [Option.map_none]
          rw [pos, text, moved_fail relocates.mono]
          rfl
    · exact moved_closeCondition relocates (⟨start, condition, nodes⟩ :: earlier) .absent
  | otherwise arms =>
    simp only [Construct.moved, close]
    exact moved_closeCondition relocates arms (.otherwise nodes)
  | eachBody start header =>
    simp only [Construct.moved, close]
    rw [ahead, moved_continuation relocates, moved_closeBlock relocates]
    split <;> rfl
  | eachFallback start header body =>
    simp only [Construct.moved, close]
    rw [moved_closeBlock relocates]
    rfl
  | awaitPending start e => exact moved_closeAwait relocates ⟨start, e, nodes, none, none⟩
  | awaitBranch done branch binding =>
    simp only [Construct.moved, close]
    rw [put_moved]
    exact moved_closeAwait relocates _
  | key start e =>
    simp only [Construct.moved, close]
    rw [moved_closeBlock relocates]
    rfl

end

section

variable (relocates : Relocates move r.scan.pos)

include relocates

private theorem moved_leave (frame : Frame) (outer : List Frame) :
    (r.moved move hole).leave (frame.moved move hole) (outer.map (Frame.moved move hole)) =
      (r.leave frame outer).moved move hole := by
  have closing : close (r.moved move hole).scan (r.moved move hole).nodes.reverse
      (frame.moved move hole).construct =
        (close r.scan r.nodes.reverse frame.construct).moved move hole := by
    rw [← moved_close relocates, movedNodes_eq, List.map_reverse, ← movedNodes_eq]
    rfl
  unfold leave
  rw [closing]
  cases close r.scan r.nodes.reverse frame.construct <;> rfl

private theorem moved_strayCloser : (r.moved move hole).strayCloser = r.strayCloser.moved move hole := by
  have ahead (literal : String) :
      (r.moved move hole).scan.startsWith literal = r.scan.startsWith literal := rfl
  have skip : (r.moved move hole).scan.skip 2 = (r.scan.skip 2).moved move :=
    moved_skip relocates 2
  have pos : (r.moved move hole).scan.pos = move r.scan.pos := rfl
  have toWord := relocates_of_reaches relocates (r.scan.reaches_skip 2)
  have onward := relocates_of_reaches toWord (reaches_word _)
  unfold strayCloser
  dsimp only
  rw [ahead, ahead, skip, pos, moved_word toWord]
  dsimp only
  rw [moved_skipPast onward, moved_skipPast onward, moved_fail relocates.mono,
    moved_fail relocates.mono, moved_fail relocates.mono]
  split
  · rfl
  · split <;> rfl

/-- A step over the same text at another place. -/
theorem step_moved (behind : hole < r.scan.pos) :
    (r.moved move hole).step = r.step.map (Reading.moved move hole) := by
  have atEnd : (r.moved move hole).scan.atEnd = r.scan.atEnd := rfl
  have atCloser : (r.moved move hole).scan.atCloser = r.scan.atCloser := rfl
  have stack : (r.moved move hole).stack = r.stack.map (Frame.moved move hole) := rfl
  unfold step
  rw [atEnd, atCloser, stack]
  split
  · cases r.stack with
    | nil =>
      change (if r.scan.atEnd then none else some (r.moved move hole).strayCloser) =
        (if r.scan.atEnd then none else some r.strayCloser).map (Reading.moved move hole)
      rw [moved_strayCloser relocates]
      split <;> rfl
    | cons frame outer => exact congrArg some (moved_leave relocates frame outer)
  · exact congrArg some (moved_open relocates behind)

end

/-- The rest of a source, read at another place. -/
theorem finish_moved {source : String} (placed : r.Placed source)
    (relocates : Relocates move r.scan.pos) (behind : hole < r.scan.pos) :
    (r.moved move hole).finish = r.finish.moved move hole := by
  fun_induction finish r with
  | case1 r ended =>
    have step := step_moved relocates behind
    rw [ended] at step
    rw [finish.eq_def]
    split
    · rfl
    · rename_i next stepped
      cases step.symm.trans stepped
  | case2 r next stepped shorter ih =>
    have step := step_moved relocates behind
    rw [stepped] at step
    have reached := (placed.leads_step stepped).reached
    rw [finish.eq_def]
    split
    · rename_i ended
      cases step.symm.trans ended
    · rename_i other here
      cases step.symm.trans here
      exact ih (placed.step stepped) (relocates_of_reaches relocates reached)
        (Nat.lt_of_lt_of_le behind reached.pos_le)

end Reading

end TypedSvelte.Markup
