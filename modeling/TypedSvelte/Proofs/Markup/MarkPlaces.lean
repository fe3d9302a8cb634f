import TypedSvelte.Proofs.Markup.Marks
import TypedSvelte.Proofs.Markup.ScriptFrame
import TypedSvelte.Proofs.Position.Spans

/-!
# Templates and scripts keep apart

Every reader leaves marks only between the place where it began and the place that it reached
(`Reading.Notes`). A script is set aside between two such places, and the next reader begins behind
it. So the invariant `Reading.Apart` holds after every step: no mark of the template overlaps a
script, and the two scripts do not overlap.
-/
namespace TypedSvelte.Markup

/-- The directive was read between two places. Its spelling is its kind, a colon and a rest that
begins with its name. -/
def Directive.Between (s t : Scan) (d : Directive) : Prop :=
  ∃ (u v : Scan) (kind rest : List Char), s.Reaches u ∧ v.Reaches t ∧ d.span = ⟨u.pos, v.pos⟩ ∧
    u.rest = kind ++ ':' :: rest ++ v.rest ∧ v.pos = u.pos + byteSize (kind ++ ':' :: rest) ∧
    ':' ∉ kind ∧ d.name.toList <+: rest

/-- What the mark refers to was read between two places. -/
def Mark.Between (s t : Scan) : Mark → Prop
  | .expression e => e.Within s.pos t.pos
  | .directive d => d.Between s t

def Script.extent (script : Script) : Span := ⟨script.openTag.start, script.closeTag.stop⟩

namespace Mark

variable {s t : Scan} {mark : Mark}

theorem Between.mono {earlier later : Scan} (between : mark.Between s t)
    (before : earlier.Reaches s) (after : t.Reaches later) : mark.Between earlier later := by
  cases mark with
  | expression e => exact Expression.Within.mono between before.pos_le after.pos_le
  | directive d =>
    obtain ⟨u, v, kind, rest, toU, fromV, spelled⟩ := between
    exact ⟨u, v, kind, rest, before.trans toU, fromV.trans after, spelled⟩

theorem Between.range (between : mark.Between s t) :
    s.pos ≤ mark.span.start ∧ mark.span.start ≤ mark.span.stop ∧ mark.span.stop ≤ t.pos := by
  cases mark with
  | expression e =>
    exact ⟨between.low_le, Expression.Within.start_le_stop between, between.le_high⟩
  | directive d =>
    obtain ⟨u, v, kind, rest, toU, fromV, span, _, pos, _⟩ := between
    simp only [Mark.span, span]
    exact ⟨toU.pos_le, by omega, fromV.pos_le⟩

private theorem between_of_mem_expressionMarks {es : List Expression}
    (member : mark ∈ expressionMarks es) (within : ∀ e ∈ es, e.Within s.pos t.pos) :
    mark.Between s t := by
  obtain ⟨e, inside, rfl⟩ := List.mem_map.1 member
  exact within e inside

end Mark

namespace Scan

variable {s : Scan} {e : Expression} {mark : Mark}

theorem within_expression {opening : Nat} (found : (s.expression opening).1 = some e) :
    e.Within s.pos (s.expression opening).2.pos := by
  unfold expression at found ⊢
  split at found
  · rename_i n _
    cases Option.some.inj found
    apply (Expression.within_ofText _ _).mono (Nat.le_refl _)
    have shorter := byteSize_le_of_prefix
      (List.take_prefix_take_left (Nat.le_succ n) : s.rest.take n <+: s.rest.take (n + 1))
    exact Nat.add_le_add_left shorter _
  · cases found

private theorem within_quotedParts {quote : Char} {opening : Nat}
    (member : ValuePart.expression e ∈ (s.quotedParts quote opening).1) :
    e.Within s.pos (s.quotedParts quote opening).2.pos := by
  fun_induction quotedParts s quote opening with
  | case1 s ended => cases member
  | case2 s c rest ahead closes => cases member
  | case3 s c rest ahead closes brace shorter more ih =>
    have toBrace := s.reaches_skip 1
    have toPart := toBrace.trans (reaches_expression (s.skip 1) s.pos)
    have toEnd := reaches_quotedParts ((s.skip 1).expression s.pos).2 quote opening
    rcases List.mem_append.1 member with here | later
    · obtain ⟨part, found, same⟩ := List.mem_map.1 here
      cases ValuePart.expression.inj same
      exact (within_expression (Option.mem_toList.1 found)).mono toBrace.pos_le toEnd.pos_le
    · exact (ih later).mono toPart.pos_le (Nat.le_refl _)
  | case4 s c rest ahead closes brace n shorter more ih =>
    rcases List.mem_cons.1 member with text | later
    · cases text
    · exact (ih later).mono (s.reaches_skip n).pos_le (Nat.le_refl _)

private theorem within_attributeValue (member : ValuePart.expression e ∈ s.attributeValue.1) :
    e.Within s.pos s.attributeValue.2.pos := by
  have toBody := (s.reaches_skip 1).pos_le
  unfold attributeValue at member ⊢
  split at member
  · exact (within_quotedParts member).mono toBody (Nat.le_refl _)
  · exact (within_quotedParts member).mono toBody (Nat.le_refl _)
  · obtain ⟨part, found, same⟩ := List.mem_map.1 member
    cases ValuePart.expression.inj same
    exact (within_expression (Option.mem_toList.1 found)).mono toBody (Nat.le_refl _)
  · cases List.mem_singleton.1 member

private theorem within_optionalValue (member : ValuePart.expression e ∈ s.optionalValue.1) :
    e.Within s.pos s.optionalValue.2.pos := by
  unfold optionalValue at member ⊢
  split at member
  · rename_i sign
    rw [if_pos sign]
    have toValue := (s.reaches_skipBlank.skip 1).trans (reaches_skipBlank _)
    exact (within_attributeValue member).mono toValue.pos_le (Nat.le_refl _)
  · cases member

/-- The first part of a text that is split at a character begins the text. -/
theorem headD_splitOn_begins (cs : List Char) (c : Char) : (cs.splitOn c).headD [] <+: cs := by
  induction cs with
  | nil => exact List.nil_prefix
  | cons d rest ih =>
    rw [List.splitOn_cons_eq_if_modifyHead]
    split
    · exact List.nil_prefix
    · cases parts : rest.splitOn c with
      | nil => exact List.nil_prefix
      | cons first later =>
        rw [parts] at ih
        exact (List.prefix_cons_inj d).2 ih

/-- What comes before a character, the character and what comes after it. -/
theorem split_at {cs : List Char} {c : Char}
    (present : (cs.takeWhile (· != c)).length < cs.length) :
    cs = cs.takeWhile (· != c) ++ c :: cs.drop ((cs.takeWhile (· != c)).length + 1) ∧
      c ∉ cs.takeWhile (· != c) := by
  induction cs with
  | nil => cases present
  | cons d rest ih =>
    by_cases here : d = c
    · subst here
      simp
    · have passed : (d :: rest).takeWhile (· != c) = d :: rest.takeWhile (· != c) :=
        List.takeWhile_cons_of_pos (bne_iff_ne.2 here)
      rw [passed] at present ⊢
      obtain ⟨split, absent⟩ := ih (Nat.lt_of_succ_lt_succ present)
      refine ⟨congrArg (d :: ·) split, ?_⟩
      rw [List.mem_cons, not_or]
      exact ⟨Ne.symm here, absent⟩

/-- A named attribute has the expressions of its value as marks, and itself if it is a directive.
Then its name has the form `kind:rest`, and the rest begins with what the directive keeps of it. -/
theorem marks_namedAttribute {span : Span} {name : String} {value : List ValuePart}
    (member : mark ∈ (namedAttribute span name value).marks) :
    (∃ e, mark = .expression e ∧ .expression e ∈ value) ∨
      ∃ d kind rest, mark = .directive d ∧ d.span = span ∧ name.toList = kind ++ ':' :: rest ∧
        ':' ∉ kind ∧ d.name.toList <+: rest := by
  unfold namedAttribute at member
  dsimp only at member
  split at member
  · rename_i known
    have colon : (name.toList.takeWhile (· != ':')).length < name.toList.length := by
      apply Decidable.byContradiction
      intro whole
      rw [if_neg whole] at known
      cases known
    obtain ⟨split, absent⟩ := split_at colon
    rcases List.mem_cons.1 member with itself | inValue
    · refine Or.inr ⟨_, _, _, itself, rfl, split, absent, ?_⟩
      rw [String.toList_ofList]
      exact headD_splitOn_begins _ _
    · obtain ⟨e, inside, rfl⟩ := List.mem_map.1 inValue
      exact Or.inl ⟨e, rfl, mem_of_soleExpression? (Option.mem_toList.1 inside)⟩
  · obtain ⟨e, inside, rfl⟩ := List.mem_map.1 member
    obtain ⟨part, inParts, isExpression⟩ := List.mem_filterMap.1 inside
    cases part with
    | text t => cases isExpression
    | expression other =>
      cases Option.some.inj isExpression
      exact Or.inl ⟨e, rfl, inParts⟩

private theorem between_attributeNamed {n : Nat} (member : mark ∈ (s.attributeNamed n).1.marks) :
    mark.Between s (s.attributeNamed n).2 := by
  rcases marks_namedAttribute member with
    ⟨e, rfl, inValue⟩ | ⟨d, kind, rest, rfl, span, name, absent, begins⟩
  · exact (within_optionalValue inValue).mono (s.reaches_skip n).pos_le (Nat.le_refl _)
  · obtain ⟨passed, ahead, pos⟩ := reaches_optionalValue (s.skip n)
    have named : s.rest.take n = kind ++ ':' :: rest := by rw [← name, String.toList_ofList]
    refine ⟨s, (s.attributeNamed n).2, kind, rest ++ passed, .refl s, .refl _, span, ?_, ?_, absent,
      begins.trans (List.prefix_append _ _)⟩
    · rw [← List.take_append_drop n s.rest, named]
      change _ ++ (s.skip n).rest = _ ++ (s.skip n).optionalValue.2.rest
      rw [ahead]
      simp only [List.append_assoc, List.cons_append]
    · change (s.skip n).optionalValue.2.pos = _
      rw [pos]
      change s.pos + byteSize (s.rest.take n) + byteSize passed = _
      rw [named, Nat.add_assoc, ← byteSize_append, List.append_assoc, List.cons_append]

theorem between_readAttribute {a : Attribute} (read : s.readAttribute.1 = some a)
    (member : mark ∈ a.marks) : mark.Between s s.readAttribute.2 := by
  unfold readAttribute at read ⊢
  split at read
  · rename_i brace
    rw [if_pos brace]
    obtain ⟨e, found, braced⟩ := Option.bind_eq_some_iff.1 read
    have within := (within_expression found).mono (s.reaches_skip 1).pos_le (Nat.le_refl _)
    unfold bracedAttribute? at braced
    split at braced
    · obtain ⟨rest, after, rfl⟩ := Option.map_eq_some_iff.1 braced
      cases List.mem_singleton.1 member
      exact within.of_hasPart (.slice after)
    · cases Option.some.inj braced
      cases List.mem_singleton.1 member
      exact within
  · rename_i brace
    rw [if_neg brace]
    split at read
    · cases read
    · cases Option.some.inj read
      exact between_attributeNamed member

theorem between_attributes (member : mark ∈ s.attributes.1.flatMap Attribute.marks) :
    mark.Between s s.attributes.2 := by
  fun_induction attributes s with
  | case1 s here ended => cases member
  | case2 s here ended atEnd => cases member
  | case3 s here ended atEnd shorter more ih =>
    have toAttribute := s.reaches_skipBlank.trans (reaches_readAttribute _)
    have toEnd := reaches_attributes here.readAttribute.2
    rw [List.flatMap_append, List.mem_append] at member
    rcases member with first | later
    · obtain ⟨a, found, inside⟩ := List.mem_flatMap.1 first
      have between := between_readAttribute (Option.mem_toList.1 found) inside
      exact between.mono s.reaches_skipBlank toEnd
    · exact (ih later).mono toAttribute (Reaches.refl _)

end Scan

namespace Reading

open Scan

variable {source : String} {r next : Reading} {scan : Scan} {mark : Mark}

private theorem within_continuation {s : Scan} {e : Expression} (found : (continuation s).1 = some e) :
    e.Within s.pos (continuation s).2.pos := by
  have toHeader := (s.reaches_skip 2).trans (reaches_word _)
  obtain ⟨read, _⟩ := Option.filter_eq_some_iff.1 found
  exact (within_expression read).mono toHeader.pos_le (Nat.le_refl _)

private theorem marks_closeCondition {s : Scan} {arms : List Arm} {alternate : Alternate}
    (member : mark ∈ (closeCondition s arms alternate).marks) :
    mark ∈ arms.flatMap Arm.marks ∨ mark ∈ alternate.marks :=
  mem_marks_conditionNode member

private theorem marks_closeAwait {s : Scan} {a : Awaiting} (member : mark ∈ (closeAwait s a).marks) :
    mark ∈ a.marks ∨ mark.Between s (closeAwait s a).scan := by
  unfold closeAwait at member ⊢
  split at member
  · rcases List.mem_append.1 member with done | binding
    · exact Or.inl done
    · refine Or.inr (Mark.between_of_mem_expressionMarks binding ?_)
      intro e inside
      exact within_continuation (Option.mem_toList.1 inside)
  · exact Or.inl member

/-- An arm of a condition whose nodes have all been read. -/
theorem marks_arms {start : Nat} {condition : Expression} {nodes : List Node} {earlier : List Arm}
    (member : mark ∈ (Arm.mk start condition nodes :: earlier).flatMap Arm.marks) :
    mark ∈ (Construct.arm start condition earlier).marks ∨ mark ∈ marksOf nodes := by
  simp only [List.flatMap_cons, Arm.marks, List.cons_append, List.mem_cons, List.mem_append]
    at member
  rcases member with here | inNodes | outer
  · exact Or.inl (List.mem_cons.2 (Or.inl here))
  · exact Or.inr inNodes
  · exact Or.inl (List.mem_cons_of_mem _ outer)

private theorem marks_each {header : EachHeader} {span : Span} {body : List Node}
    {fallback : Option (List Node)}
    (member : mark ∈ (Node.each ⟨span, header.expression, header.context, header.index, header.key⟩
      body fallback).marks) :
    mark ∈ expressionMarks header.parts ∨ mark ∈ marksOf body ∨ mark ∈ marksOfBranch fallback := by
  rw [Node.marks, List.mem_append, List.mem_append, or_assoc] at member
  exact member

/-- What becomes of a construct has the marks of the construct, of its nodes, and of a continuation
that is passed. -/
theorem marks_close {s : Scan} {nodes : List Node} {construct : Construct}
    (member : mark ∈ (close s nodes construct).marks) :
    mark ∈ construct.marks ∨ mark ∈ marksOf nodes ∨
      mark.Between s (close s nodes construct).scan := by
  cases construct with
  | element start name attributes => exact (List.mem_append.1 member).imp_right Or.inl
  | arm start condition earlier =>
    simp only [close] at member ⊢
    split at member
    · rename_i more
      rw [if_pos more]
      split at member
      · exact (marks_arms member).imp_right Or.inl
      · rename_i rest continued
        split at member
        · rename_i condition found
          rcases List.mem_cons.1 member with here | inArms
          · subst here
            have within := (within_continuation continued).of_hasPart (part_elseIfCondition? found)
            exact Or.inr (Or.inr within)
          · exact (marks_arms inArms).imp_right Or.inl
        · exact (marks_arms member).imp_right Or.inl
    · rcases marks_closeCondition member with inArms | absent
      · exact (marks_arms inArms).imp_right Or.inl
      · cases absent
  | otherwise arms => exact (marks_closeCondition member).imp_right Or.inl
  | eachBody start header =>
    simp only [close] at member
    split at member
    · exact (List.mem_append.1 member).imp_right Or.inl
    · rcases marks_each member with inHeader | inBody | absent
      · exact Or.inl inHeader
      · exact Or.inr (Or.inl inBody)
      · cases absent
  | eachFallback start header body =>
    rcases marks_each member with inHeader | inBody | inNodes
    · exact Or.inl (List.mem_append_left _ inHeader)
    · exact Or.inl (List.mem_append_right _ inBody)
    · exact Or.inr (Or.inl inNodes)
  | awaitPending start e =>
    rcases marks_closeAwait member with read | between
    · simp only [Awaiting.marks, Awaiting.node, Node.marks, AwaitHead.parts, marksOfBranch,
        Option.bind_none, Option.map_none, Option.toList_none, List.append_nil] at read
      exact (List.mem_cons.1 read).imp List.mem_singleton.2 Or.inl
    · exact Or.inr (Or.inr between)
  | awaitBranch done branch binding =>
    rcases marks_closeAwait member with read | between
    · rcases mem_marks_put read with before | inBinding | inNodes
      · exact Or.inl (List.mem_append_left _ before)
      · exact Or.inl (List.mem_append_right _ inBinding)
      · exact Or.inr (Or.inl inNodes)
    · exact Or.inr (Or.inr between)
  | key start e => exact (List.mem_cons.1 member).imp List.mem_singleton.2 Or.inl

/-- Every mark of `next` is one of `r`, or what it refers to was read between the places of both. -/
def Notes (r next : Reading) : Prop :=
  ∀ mark ∈ next.marks, mark ∈ r.marks ∨ mark.Between r.scan next.scan

private theorem notes_moveTo (r : Reading) (scan : Scan) : r.Notes (r.moveTo scan) :=
  fun _ member => Or.inl member

theorem notes_add {node : Node} (between : ∀ mark ∈ node.marks, mark.Between r.scan scan) :
    r.Notes (r.add scan node) := by
  intro mark member
  simp only [marks, add, marksOf, List.mem_append] at member ⊢
  rcases member with inStack | inNode | inNodes
  · exact Or.inl (Or.inl inStack)
  · exact Or.inr (between mark inNode)
  · exact Or.inl (Or.inr inNodes)

theorem notes_enter {construct : Construct}
    (between : ∀ mark ∈ construct.marks, mark.Between r.scan scan) :
    r.Notes (r.enter scan construct) := by
  intro mark member
  simp only [marks, enter, marksOf, Frame.marks, List.flatMap_cons, List.append_nil,
    List.mem_append] at member ⊢
  rcases member with (inConstruct | inNodes) | inStack
  · exact Or.inr (between mark inConstruct)
  · exact Or.inl (Or.inr inNodes)
  · exact Or.inl (Or.inl inStack)

theorem notes_leave {frame : Frame} {outer : List Frame} (top : r.stack = frame :: outer) :
    r.Notes (r.leave frame outer) := by
  have fromConstruct (mark : Mark) (inConstruct : mark ∈ frame.construct.marks) :
      mark ∈ r.marks := by
    simp only [marks, top, Frame.marks, List.flatMap_cons, List.mem_append]
    exact Or.inl (Or.inl (Or.inl inConstruct))
  have closing (mark : Mark)
      (member : mark ∈ (close r.scan r.nodes.reverse frame.construct).marks) : mark ∈ r.marks ∨
        mark.Between r.scan (close r.scan r.nodes.reverse frame.construct).scan := by
    rcases marks_close member with inConstruct | inNodes | between
    · exact Or.inl (fromConstruct mark inConstruct)
    · exact Or.inl (List.mem_append_right _ (mem_marksOf_reverse.1 inNodes))
    · exact Or.inr between
  have inOuter (mark : Mark)
      (member : mark ∈ marksOf frame.before ∨ mark ∈ outer.flatMap Frame.marks) :
      mark ∈ r.marks := by
    simp only [marks, top, Frame.marks, List.flatMap_cons, List.mem_append]
    rcases member with before | outside
    · exact Or.inl (Or.inl (Or.inr before))
    · exact Or.inl (Or.inr outside)
  intro mark member
  unfold leave at member ⊢
  split
  · rename_i scan construct closes
    rw [closes] at closing
    simp only [closes, marks, Frame.marks, marksOf, List.flatMap_cons, List.append_nil,
      List.mem_append] at member
    rcases member with (inConstruct | before) | outside
    · exact closing mark inConstruct
    · exact Or.inl (inOuter mark (Or.inl before))
    · exact Or.inl (inOuter mark (Or.inr outside))
  · rename_i scan node closes
    rw [closes] at closing
    simp only [closes, marks, marksOf, List.mem_append] at member
    rcases member with outside | inNode | before
    · exact Or.inl (inOuter mark (Or.inr outside))
    · exact closing mark inNode
    · exact Or.inl (inOuter mark (Or.inl before))

theorem notes_strayCloser (r : Reading) : r.Notes r.strayCloser := by
  unfold strayCloser
  dsimp only
  split
  · exact r.notes_moveTo _
  · split
    · exact r.notes_moveTo _
    · exact r.notes_moveTo _

theorem notes_readText (r : Reading) : r.Notes r.readText := notes_add nofun

theorem notes_readComment (r : Reading) : r.Notes r.readComment := by
  unfold readComment
  dsimp only
  split
  · exact notes_add (List.forall_mem_nil _)
  · exact notes_add (List.forall_mem_nil _)

theorem notes_readMustache (r : Reading) : r.Notes r.readMustache := by
  unfold readMustache
  dsimp only
  split
  · exact r.notes_moveTo _
  · rename_i e read
    split
    · exact r.notes_moveTo _
    · apply notes_add
      intro mark member
      cases List.mem_singleton.1 member
      exact (within_expression read).mono (r.scan.reaches_skip 1).pos_le (Nat.le_refl _)

theorem notes_readTag (r : Reading) : r.Notes r.readTag := by
  have toHeader := (r.scan.reaches_skip 2).trans (reaches_word _)
  unfold readTag
  dsimp only
  split
  · exact r.notes_moveTo _
  · exact r.notes_moveTo _
  · rename_i e kind read _
    apply notes_add
    intro mark member
    apply Mark.between_of_mem_expressionMarks member
    intro part inside
    split at inside
    · cases inside
    · cases List.mem_singleton.1 inside
      exact (within_expression read).mono toHeader.pos_le (Nat.le_refl _)

private theorem marks_blockConstruct? {start low high : Nat} {word : String} {header : Expression}
    {construct : Construct} (within : header.Within low high)
    (opens : blockConstruct? start word header = some construct) (member : mark ∈ construct.marks) :
    ∃ e, mark = .expression e ∧ e.Within low high := by
  unfold blockConstruct? at opens
  split at opens
  · cases opens
    cases List.mem_singleton.1 member
    exact ⟨header, rfl, within⟩
  · cases opens
    obtain ⟨e, inHeader, rfl⟩ := List.mem_map.1 member
    exact ⟨e, rfl, within.of_hasPart (part_eachHeader inHeader)⟩
  · dsimp only at opens
    split at opens
    · rename_i branch binding split
      cases opens
      rcases List.mem_append.1 member with subject | inBinding
      · cases List.mem_singleton.1 subject
        exact ⟨_, rfl, within.of_hasPart (part_awaitHeader List.mem_cons_self)⟩
      · obtain ⟨e, inHeader, rfl⟩ := List.mem_map.1 inBinding
        refine ⟨e, rfl, within.of_hasPart (part_awaitHeader (List.mem_cons_of_mem _ ?_))⟩
        rw [split]
        exact inHeader
    · cases opens
      cases List.mem_singleton.1 member
      exact ⟨_, rfl, within.of_hasPart (part_awaitHeader List.mem_cons_self)⟩
  · cases opens
    cases List.mem_singleton.1 member
    exact ⟨header, rfl, within⟩
  · cases opens

theorem notes_readBlock (r : Reading) : r.Notes r.readBlock := by
  have toHeader := (r.scan.reaches_skip 2).trans (reaches_word _)
  unfold readBlock
  dsimp only
  split
  · exact r.notes_moveTo _
  · rename_i header read
    split
    · rename_i construct opens
      apply notes_enter
      intro mark member
      have within := (within_expression read).mono toHeader.pos_le (Nat.le_refl _)
      obtain ⟨e, rfl, inside⟩ := marks_blockConstruct? within opens member
      exact inside
    · exact r.notes_moveTo _

def Keeps (r : Reading) (script : Script) : Prop :=
  r.moduleScript = some script ∨ r.instanceScript = some script

/-- The reading is behind the scripts set aside, and these keep apart from each other and from all
that has been noted. -/
structure Apart (source : String) (r : Reading) : Prop where
  here : (Scan.ofSource source).Reaches r.scan
  marks : ∀ mark ∈ r.marks, mark.Between (Scan.ofSource source) r.scan
  behind : ∀ script, r.Keeps script → script.extent.stop ≤ r.scan.pos
  clear : ∀ script, r.Keeps script → ∀ mark ∈ r.marks, mark.span.Apart script.extent
  scripts : ∀ first second, r.moduleScript = some first → r.instanceScript = some second →
    first.extent.Apart second.extent

theorem apart_start (source : String) : Apart source (start source) where
  here := Reaches.refl _
  marks := nofun
  behind := fun _ keeps => keeps.elim nofun nofun
  clear := fun _ _ => nofun
  scripts := nofun

theorem Moves.keeps (moves : r.Moves next) {script : Script} (keeps : next.Keeps script) :
    r.Keeps script := by
  rw [Keeps, moves.moduleScript, moves.instanceScript] at keeps
  exact keeps

/-- A reader that sets no script aside begins behind all scripts. -/
theorem Moves.apart (moves : r.Moves next) (notes : r.Notes next) (apart : Apart source r) :
    Apart source next where
  here := apart.here.trans moves.reached
  marks mark member := by
    rcases notes mark member with old | new
    · exact (apart.marks mark old).mono (Reaches.refl _) moves.reached
    · exact new.mono apart.here (Reaches.refl _)
  behind script keeps := Nat.le_trans (apart.behind script (moves.keeps keeps)) moves.reached.pos_le
  clear script keeps mark member := by
    rcases notes mark member with old | new
    · exact apart.clear script (moves.keeps keeps) mark old
    · exact Or.inr (Nat.le_trans (apart.behind script (moves.keeps keeps)) new.range.1)
  scripts first second isFirst isSecond := by
    rw [moves.moduleScript] at isFirst
    rw [moves.instanceScript] at isSecond
    exact apart.scripts first second isFirst isSecond

/-- A script that begins behind all that was noted and set aside before. -/
theorem apart_addScript (apart : Apart source r) {script : Script}
    (behindMarks : ∀ mark ∈ r.marks, mark.span.stop ≤ script.extent.start)
    (behindScripts : ∀ other, r.Keeps other → other.extent.stop ≤ script.extent.start)
    (passed : script.extent.stop ≤ r.scan.pos) : Apart source (r.addScript script) := by
  have duplicate (kind : ErrorKind) (start : Nat) :
      Apart source (r.moveTo (r.scan.fail kind start)) :=
    (moves_moveTo ((Reaches.refl _).fail _ _)).apart (r.notes_moveTo _) apart
  unfold addScript
  split
  · split
    · exact duplicate _ _
    · refine ⟨apart.here, apart.marks, ?_, ?_, ?_⟩
      · rintro other (new | old)
        · cases Option.some.inj new
          exact passed
        · exact apart.behind other (Or.inr old)
      · rintro other (new | old) mark member
        · cases Option.some.inj new
          exact Or.inl (behindMarks mark member)
        · exact apart.clear other (Or.inr old) mark member
      · intro first second isFirst isSecond
        cases Option.some.inj isFirst
        exact Or.inr (behindScripts second (Or.inr isSecond))
  · split
    · exact duplicate _ _
    · refine ⟨apart.here, apart.marks, ?_, ?_, ?_⟩
      · rintro other (old | new)
        · exact apart.behind other (Or.inl old)
        · cases Option.some.inj new
          exact passed
      · rintro other (old | new) mark member
        · exact apart.clear other (Or.inl old) mark member
        · cases Option.some.inj new
          exact Or.inl (behindMarks mark member)
      · intro first second isFirst isSecond
        cases Option.some.inj isSecond
        exact Or.inl (behindScripts first (Or.inl isFirst))

private theorem marks_addScript (r : Reading) (script : Script) : (r.addScript script).marks = r.marks := by
  unfold addScript
  split
  · split <;> rfl
  · split <;> rfl

/-- The attributes of a script or style are noted only when it is an element like any other. -/
theorem marks_readRaw {start : Nat} {name : String} {attributes : List Attribute}
    (member : mark ∈ (r.readRaw start name attributes).marks) :
    mark ∈ attributes.flatMap Attribute.marks ∨ mark ∈ r.marks := by
  unfold readRaw at member
  dsimp only at member
  split at member
  · simp only [marks, add, moveTo, marksOf, Node.marks, List.append_nil, List.mem_append]
      at member ⊢
    rcases member with inStack | inAttributes | inNodes
    · exact Or.inr (Or.inl inStack)
    · exact Or.inl inAttributes
    · exact Or.inr (Or.inr inNodes)
  · split at member
    · exact Or.inr member
    · rw [marks_addScript] at member
      exact Or.inr member

private theorem apart_readRaw (apart : Apart source r) {opened : Scan} (reached : r.scan.Reaches opened)
    (name : String) {attributes : List Attribute}
    (between : ∀ mark ∈ attributes.flatMap Attribute.marks, mark.Between r.scan opened) :
    Apart source ((r.moveTo opened).readRaw r.scan.pos name attributes) := by
  obtain ⟨closing, last, toClosing, ends, moves | ⟨_, set⟩⟩ :=
    readRaw_cases (r.moveTo opened) r.scan.pos name attributes
  · have whole : r.Moves ((r.moveTo opened).readRaw r.scan.pos name attributes) :=
      ⟨reached.trans moves.reached, moves.moduleScript, moves.instanceScript⟩
    apply whole.apart _ apart
    intro mark member
    rcases marks_readRaw member with inAttributes | old
    · exact Or.inr ((between mark inAttributes).mono (Reaches.refl _) moves.reached)
    · exact Or.inl old
  · have toLast : closing.Reaches last := by
      rcases ends with ⟨sameRest, samePos⟩ | ⟨_, rfl⟩
      · exact ⟨[], sameRest.symm, samePos⟩
      · exact closing.reaches_skipPast '>'
    have moves : r.Moves (r.moveTo last) :=
      moves_moveTo (reached.trans (Reaches.trans toClosing toLast))
    rw [set]
    apply apart_addScript (moves.apart (r.notes_moveTo last) apart)
    · exact fun mark member => (apart.marks mark member).range.2.2
    · exact fun other keeps => apart.behind other keeps
    · exact Nat.le_refl _

private theorem apart_readElement (apart : Apart source r) : Apart source r.readElement := by
  have toAttributes := fun n => (r.scan.reaches_skip 1).trans (reaches_skip _ n)
  have toEnd := fun n name => (reaches_attributes ((r.scan.skip 1).skip n)).trans
    (reaches_tagEnd _ name r.scan.pos)
  have between (n : Nat) (name : String) :
      ∀ mark ∈ ((r.scan.skip 1).skip n).attributes.1.flatMap Attribute.marks, mark.Between r.scan
        (tagEnd ((r.scan.skip 1).skip n).attributes.2 name r.scan.pos).2 :=
    fun mark member => (between_attributes member).mono (toAttributes n) (reaches_tagEnd _ _ _)
  unfold readElement
  dsimp only
  split
  · exact apart_readRaw apart ((toAttributes _).trans (toEnd _ _)) _ (between _ _)
  · split
    · apply (moves_add ((toAttributes _).trans (toEnd _ _)) _).apart (notes_add _) apart
      intro mark member
      rw [Node.marks, marksOf, List.append_nil] at member
      exact between _ _ mark member
    · exact (moves_enter ((toAttributes _).trans (toEnd _ _)) _).apart
        (notes_enter (between _ _)) apart

private theorem apart_open (apart : Apart source r) : Apart source r.open_ := by
  unfold open_
  split
  · exact r.moves_readComment.apart r.notes_readComment apart
  split
  · exact apart_readElement apart
  split
  · exact r.moves_readBlock.apart r.notes_readBlock apart
  split
  · exact r.moves_readTag.apart r.notes_readTag apart
  split
  · exact r.moves_readMustache.apart r.notes_readMustache apart
  · exact r.moves_readText.apart r.notes_readText apart

/-- A step keeps the invariant. -/
theorem apart_step (apart : Apart source r) (stepped : r.step = some next) :
    Apart source next := by
  unfold step at stepped
  split at stepped
  · split at stepped
    · rename_i frame outer top
      cases stepped
      exact (r.moves_leave frame outer).apart (notes_leave top) apart
    · split at stepped
      · cases stepped
      · cases stepped
        exact r.moves_strayCloser.apart r.notes_strayCloser apart
  · cases stepped
    exact apart_open apart

/-- So does the whole pass. -/
theorem apart_finish (apart : Apart source r) : Apart source r.finish := by
  fun_induction finish r with
  | case1 r ended => exact apart
  | case2 r next stepped falls ih => exact ih (apart_step apart stepped)

end Reading

section

variable {source : String} {script : Script}

/-- What the template of a component refers to was read from the source. -/
theorem between_of_mem_marks {mark : Mark}
    (member : mark ∈ marksOf (parse source).document.fragment) :
    mark.Between (Scan.ofSource source) (Reading.start source).finish.scan :=
  (Reading.apart_finish (Reading.apart_start source)).marks mark
    (List.mem_append_right _ (mem_marksOf_reverse.1 member))

/-- What the template of a component refers to lies in the source, beside its scripts. -/
theorem apart_of_mem_marks {mark : Mark} (member : mark ∈ marksOf (parse source).document.fragment)
    (kept : (parse source).document.moduleScript = some script ∨
      (parse source).document.instanceScript = some script) :
    mark.Between (Scan.ofSource source) (Reading.start source).finish.scan ∧
      mark.span.Apart script.extent := by
  have apart := Reading.apart_finish (Reading.apart_start source)
  have noted : mark ∈ (Reading.start source).finish.marks :=
    List.mem_append_right _ (mem_marksOf_reverse.1 member)
  exact ⟨apart.marks mark noted, apart.clear script kept mark noted⟩

/-- The two scripts of a component do not overlap. -/
theorem apart_scripts {other : Script}
    (isModule : (parse source).document.moduleScript = some other)
    (isInstance : (parse source).document.instanceScript = some script) :
    other.extent.Apart script.extent :=
  (Reading.apart_finish (Reading.apart_start source)).scripts other script isModule isInstance

end

end TypedSvelte.Markup
