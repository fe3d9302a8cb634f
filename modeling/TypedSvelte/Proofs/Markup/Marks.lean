import TypedSvelte.Markup.Parse
import TypedSvelte.Markup.Traversal
import TypedSvelte.Proofs.Text.Bytes
import TypedSvelte.Proofs.Text.Trimming

/-!
# Marks

A template refers to its source through expressions and, where a directive names something, through
directives. These are its marks. This module collects them for nodes and for constructs that are
still open, and shows that the parts of a block header are stretches of the header
(`Expression.HasPart`), so that they lie inside it (`Expression.Within`).
-/
namespace TypedSvelte

theorem byteSize_le_of_prefix {first whole : List Char} (begins : first <+: whole) :
    byteSize first ≤ byteSize whole := by
  obtain ⟨rest, rfl⟩ := begins
  rw [byteSize_append]
  exact Nat.le_add_right _ _

/-- The white space before a text and the trimmed text fit into the text. -/
theorem byteSize_trim_le (cs : List Char) :
    byteSize (cs.takeWhile isBlank) + byteSize (trim cs) ≤ byteSize cs := by
  have trimmed := byteSize_le_of_prefix (trimEnd_begins (cs.dropWhile isBlank))
  calc
    _ ≤ byteSize (cs.takeWhile isBlank) + byteSize (cs.dropWhile isBlank) :=
      Nat.add_le_add_left trimmed _
    _ = byteSize cs := by rw [← byteSize_append, List.takeWhile_append_dropWhile]

namespace Markup

/-- The expression covers its text and lies between two offsets. -/
structure Expression.Within (low high : Nat) (e : Expression) : Prop where
  low_le : low ≤ e.span.start
  covers : e.span.stop = e.span.start + e.text.utf8ByteSize
  le_high : e.span.stop ≤ high

namespace Expression

variable {low high : Nat} {e part : Expression}

theorem Within.mono {lower higher : Nat} (within : e.Within low high) (below : lower ≤ low)
    (above : high ≤ higher) : e.Within lower higher :=
  ⟨Nat.le_trans below within.low_le, within.covers, Nat.le_trans within.le_high above⟩

theorem Within.start_le_stop (within : e.Within low high) : e.span.start ≤ e.span.stop := by
  rw [within.covers]
  exact Nat.le_add_right _ _

theorem within_ofText (offset : Nat) (raw : List Char) :
    (ofText offset raw).Within offset (offset + byteSize raw) := by
  refine ⟨Nat.le_add_right _ _, ?_, ?_⟩
  · exact congrArg _ (utf8ByteSize_ofList _).symm
  · have trimmed := byteSize_trim_le raw
    change offset + byteSize (raw.takeWhile isBlank) + byteSize (trim raw) ≤ _
    omega

/-- A part of an expression lies where the expression does. -/
theorem within_slice? (within : e.Within low high) {start stop : Nat}
    (found : e.slice? start stop = some part) : part.Within low high := by
  unfold slice? at found
  dsimp only at found
  split at found
  · cases found
  · rename_i filled
    cases Option.some.inj found
    have covered : (Span.mk start stop).text e.text ≠ "" := by
      intro blank
      rw [blank] at filled
      exact filled rfl
    obtain ⟨before, after, whole, size, sum⟩ :=
      (slice?_eq_some_iff _ _ _ _).1 (slice?_of_text_ne covered)
    have fits := congrArg String.utf8ByteSize whole
    rw [String.utf8ByteSize_append, String.utf8ByteSize_append] at fits
    apply (within_ofText _ _).mono (Nat.le_trans within.low_le (Nat.le_add_right _ _))
    have bound := within.le_high
    rw [within.covers] at bound
    rw [byteSize_toList]
    change start + _ = stop at sum
    change before.utf8ByteSize = start at size
    omega

/-- The expression itself, or a stretch of its text without the white space around it. -/
inductive HasPart (e : Expression) : Expression → Prop
  | whole : HasPart e e
  | slice {start stop : Nat} {part : Expression} (found : e.slice? start stop = some part) :
      HasPart e part

/-- Where the whole expression stands in for a blank part. -/
theorem hasPart_getD (e : Expression) (start stop : Nat) :
    e.HasPart ((e.slice? start stop).getD e) := by
  cases found : e.slice? start stop with
  | none => exact .whole
  | some part => exact .slice found

theorem Within.of_hasPart (within : e.Within low high) (isPart : e.HasPart part) :
    part.Within low high := by
  cases isPart with
  | whole => exact within
  | slice found => exact within_slice? within found

end Expression

/-- The parts of an `{#each}` header. -/
def EachHeader.parts (header : EachHeader) : List Expression :=
  header.expression :: header.context.toList ++ header.index.toList ++ header.key.toList

/-- The parts of an `{#await}` header. -/
def AwaitHeader.parts (header : AwaitHeader) : List Expression :=
  header.expression :: (header.branch.bind (·.2)).toList

section

variable {header part : Expression}

private theorem part_splitBinding {start stop : Nat}
    (found : (splitBinding header start stop).1 = some part ∨
      (splitBinding header start stop).2 = some part) : header.HasPart part := by
  unfold splitBinding at found
  split at found
  · dsimp only at found
    cases found with
    | inl context => exact .slice context
    | inr index => exact .slice index
  · dsimp only at found
    cases found with
    | inl context => exact .slice context
    | inr index => cases index

theorem part_eachHeader (member : part ∈ (EachHeader.split header).parts) :
    header.HasPart part := by
  unfold EachHeader.split at member
  split at member
  · cases List.mem_singleton.1 member
    exact .whole
  · simp only [EachHeader.parts, List.cons_append, List.mem_cons, List.mem_append,
      Option.mem_toList] at member
    rcases member with same | (context | index) | key
    · rw [same]
      exact Expression.hasPart_getD _ _ _
    · exact part_splitBinding (Or.inl context)
    · exact part_splitBinding (Or.inr index)
    · split at key
      · dsimp only at key
        exact .slice key
      · cases key

/-- The header that begins with the subject and the first word of a branch. -/
theorem part_awaitHeader (member : part ∈ (AwaitHeader.split header).parts) :
    header.HasPart part := by
  have branch {word : Span} {kind : AwaitBranch}
      (inside : part ∈ AwaitHeader.parts ⟨(header.slice? 0 word.start).getD header,
        some (kind, header.after? word.stop)⟩) : header.HasPart part := by
    simp only [AwaitHeader.parts, List.mem_cons, Option.bind_some, Option.mem_toList]
      at inside
    rcases inside with same | binding
    · rw [same]
      exact Expression.hasPart_getD _ _ _
    · exact .slice binding
  unfold AwaitHeader.split at member
  dsimp only at member
  cases onThen : findWord? header.chars AwaitBranch.then_.word with
  | some word =>
    rw [onThen] at member
    exact branch member
  | none =>
    cases onCatch : findWord? header.chars AwaitBranch.catch_.word with
    | some word =>
      rw [onThen, onCatch] at member
      exact branch member
    | none =>
      rw [onThen, onCatch] at member
      cases List.mem_singleton.1 member
      exact .whole

theorem part_elseIfCondition? (found : elseIfCondition? header = some part) :
    header.HasPart part := by
  unfold elseIfCondition? at found
  split at found
  · split at found
    · exact .slice found
    · cases found
  · cases found

end

/-- Only the one expression of a value is kept by a directive. -/
theorem Scan.mem_of_soleExpression? {value : List ValuePart} {e : Expression}
    (sole : Scan.soleExpression? value = some e) : .expression e ∈ value := by
  unfold Scan.soleExpression? at sole
  split at sole
  · cases sole
    exact List.mem_singleton_self _
  · cases sole

/-- What a template refers to its source by. -/
inductive Mark where
  | expression (e : Expression)
  | directive (d : Directive)

def Mark.span : Mark → Span
  | .expression e => e.span
  | .directive d => d.span

def expressionMarks (es : List Expression) : List Mark := es.map .expression

def Attribute.marks (a : Attribute) : List Mark :=
  (match a with
    | .directive d => [.directive d]
    | _ => []) ++ expressionMarks a.expressions

/-- The parts of the header of an `{#each}` block. -/
def EachHead.parts (head : EachHead) : List Expression :=
  head.expression :: head.context.toList ++ head.index.toList ++ head.key.toList

/-- The subject of an `{#await}` block and the bindings of its branches. -/
def AwaitHead.parts (head : AwaitHead) : List Expression :=
  head.expression :: head.thenBinding.toList ++ head.catchBinding.toList

mutual

def Node.marks : Node → List Mark
  | .element head children => head.attributes.flatMap Attribute.marks ++ marksOf children
  | .text _ | .comment _ => []
  | .mustache _ e => [.expression e]
  | .tag _ _ e => expressionMarks e.toList
  | .ifBlock _ condition consequent alternate =>
    .expression condition :: marksOf consequent ++ alternate.marks
  | .each head body fallback =>
    expressionMarks head.parts ++ marksOf body ++ marksOfBranch fallback
  | .await head pending onThen onCatch =>
    expressionMarks head.parts ++ marksOf pending ++ marksOfBranch onThen ++ marksOfBranch onCatch
  | .key _ e body => .expression e :: marksOf body

def marksOf : List Node → List Mark
  | [] => []
  | node :: rest => node.marks ++ marksOf rest

/-- The marks of a branch, if it is there. -/
def marksOfBranch : Option (List Node) → List Mark
  | none => []
  | some nodes => marksOf nodes

/-- The marks of what follows the consequent of a condition. -/
def Alternate.marks : Alternate → List Mark
  | .absent => []
  | .otherwise nodes => marksOf nodes
  | .elseIf _ condition consequent alternate =>
    .expression condition :: marksOf consequent ++ alternate.marks

end

private theorem marksOf_eq_flatMap (nodes : List Node) : marksOf nodes = nodes.flatMap Node.marks := by
  induction nodes with
  | nil => rfl
  | cons node rest ih => rw [marksOf, ih, List.flatMap_cons]

theorem mem_marksOf_reverse {nodes : List Node} {mark : Mark} :
    mark ∈ marksOf nodes.reverse ↔ mark ∈ marksOf nodes := by
  simp only [marksOf_eq_flatMap, List.mem_flatMap, List.mem_reverse]

def Arm.marks (arm : Arm) : List Mark := .expression arm.condition :: marksOf arm.consequent

/-- The marks of the branches of an `{#await}` block read so far. -/
def Awaiting.marks (a : Awaiting) : List Mark :=
  (a.node a.start).marks

def Construct.marks : Construct → List Mark
  | .element _ _ attributes => attributes.flatMap Attribute.marks
  | .arm _ condition earlier => .expression condition :: earlier.flatMap Arm.marks
  | .otherwise arms => arms.flatMap Arm.marks
  | .eachBody _ header => expressionMarks header.parts
  | .eachFallback _ header body => expressionMarks header.parts ++ marksOf body
  | .awaitPending _ e => [.expression e]
  | .awaitBranch done _ binding => done.marks ++ expressionMarks binding.toList
  | .key _ e => [.expression e]

/-- The marks of a construct and of the nodes that stand before it. -/
def Frame.marks (frame : Frame) : List Mark := frame.construct.marks ++ marksOf frame.before

def Reading.marks (r : Reading) : List Mark := r.stack.flatMap Frame.marks ++ marksOf r.nodes

namespace Reading

def Closing.marks : Closing → List Mark
  | .goesOn _ construct => construct.marks
  | .closed _ node => node.marks

/-- A branch that is put in place adds the marks of its binding and of its nodes. -/
theorem mem_marks_put {a : Awaiting} {branch : AwaitBranch} {binding : Option Expression}
    {nodes : List Node} {mark : Mark} (member : mark ∈ (a.put branch binding nodes).marks) :
    mark ∈ a.marks ∨ mark ∈ expressionMarks binding.toList ∨ mark ∈ marksOf nodes := by
  obtain ⟨start, subject, pending, onThen, onCatch⟩ := a
  simp only [Awaiting.marks, Awaiting.node, Node.marks, AwaitHead.parts, expressionMarks,
    List.map_append, List.map_cons, List.mem_append, List.mem_cons] at member ⊢
  cases branch with
  | then_ =>
    simp only [Awaiting.put, Option.bind_some, Option.map_some, marksOfBranch] at member
    grind only
  | catch_ =>
    simp only [Awaiting.put, Option.bind_some, Option.map_some, marksOfBranch] at member
    grind only

theorem mem_marks_conditionNode {stop close : Nat} {alternate : Alternate} {arms : List Arm}
    {mark : Mark} (member : mark ∈ (conditionNode stop close alternate arms).marks) :
    mark ∈ arms.flatMap Arm.marks ∨ mark ∈ alternate.marks := by
  induction arms generalizing alternate with
  | nil => cases member
  | cons arm outer ih =>
    rw [List.flatMap_cons, List.mem_append, or_assoc]
    cases outer with
    | nil =>
      rw [conditionNode, Node.marks, List.mem_append] at member
      exact member.imp id Or.inr
    | cons next outer =>
      rcases ih member with inOuter | inAlternate
      · exact Or.inr (Or.inl inOuter)
      · rw [Alternate.marks, List.mem_append] at inAlternate
        exact inAlternate.imp id Or.inr

end Reading

end Markup

end TypedSvelte
