import TypedSvelte.Proofs.Markup.HeaderSlices
import TypedSvelte.Proofs.Markup.PlacedDocuments

/-!
# Reading is safe

Reading a component ends for every source, and nothing that it cuts out of the source lies out of
range or off a character boundary. A place of the source is an offset with the text from there on
(`Scan.In`); readers move only by whole characters, so they stay at places of the source, and what
they pass by its size in bytes is text that they have seen ahead (`Scan.Sees`). Each round of a loop
passes characters or is the last one. `Safe` collects these facts, together with those about spans.
-/
namespace TypedSvelte.Markup

variable {source : String}

namespace Scan

variable {s : Scan} {n : Nat} {literal : String}

/-- The place lies in the source: its offset is a character boundary, and what is left is the source
from there on. -/
def In (source : String) (s : Scan) : Prop :=
  slice? source s.pos source.utf8ByteSize = some (String.ofList s.rest)

private theorem in_iff : s.In source ↔ (ofSource source).Reaches s := by
  constructor
  · intro here
    obtain ⟨before, after, whole, size, sum⟩ := (slice?_eq_some_iff _ _ _ _).1 here
    have sizes := congrArg String.utf8ByteSize whole
    rw [String.utf8ByteSize_append, String.utf8ByteSize_append] at sizes
    have nothing : after = "" := String.utf8ByteSize_eq_zero_iff.1 (by omega)
    refine ⟨before.toList, ?_, ?_⟩
    · change source.toList = _
      rw [whole, nothing, String.append_empty, String.toList_append, String.toList_ofList]
    · rw [byteSize_toList, size]
      exact (Nat.zero_add _).symm
  · intro here
    have ended := here.trans s.reaches_skipAll
    have nothing : s.skipAll.rest = [] := List.drop_length
    have whole : s.rest = s.rest ++ s.skipAll.rest := by rw [nothing, List.append_nil]
    have pos : s.skipAll.pos = s.pos + byteSize s.rest := by
      change s.pos + byteSize (s.rest.take s.rest.length) = _
      rw [List.take_length]
    have slice := here.slice? whole pos
    rw [ended.pos_of_nil nothing] at slice
    exact slice

theorem In.isCut (here : s.In source) : IsCut source s.pos := (cuts_of_slice? here).1

theorem In.skip (here : s.In source) (n : Nat) : (s.skip n).In source :=
  in_iff.2 ((in_iff.1 here).skip n)

/-- After `n` characters, readers have seen `literal` ahead. -/
inductive Sees (s : Scan) : Nat → String → Prop
  | literal {literal : String} (begins : s.startsWith literal = true) : Sees s 0 literal
  | tag (isTag : s.atTag = true) : Sees s 0 "<"
  | char {c : Char} {n : Nat} (found : s.rest.findIdx? (· == c) = some n) :
      Sees s n (String.singleton c)
  | text {literal : String} {n : Nat} (found : findText? literal.toList s.rest = some n) :
      Sees s n literal
  | brace {n : Nat} (found : closingBrace? s.rest = some n) : Sees s n "\x7d"

end Scan

/-- An expression ends right before its closing brace. -/
theorem begins_of_closingBraceFrom {text : List Char} {depth : Nat} :
    ∀ n, closingBraceFrom depth text = some n → ['}'] <+: text.drop n := by
  have further {c : Char} {rest : List Char} {length : Nat} {inner : Option Nat}
      (ih : ∀ n, inner = some n → ['}'] <+: (rest.drop length).drop n) (n : Nat)
      (found : inner.map (· + (length + 1)) = some n) : ['}'] <+: (c :: rest).drop n := by
    obtain ⟨m, later, rfl⟩ := Option.map_eq_some_iff.1 found
    have begins := ih m later
    rw [List.drop_drop, Nat.add_comm] at begins
    exact begins
  fun_induction closingBraceFrom depth text with
  | case1 depth => exact nofun
  | case2 c rest length next depth read ih => exact further (ih (depth + 1))
  | case3 c rest length read ih =>
    intro n found
    cases Option.some.inj found
    obtain ⟨rfl, _⟩ := @lexeme_mark _ '}' _ _ _ read rfl
    exact ⟨rest, rfl⟩
  | case4 c rest length next depth read ih => exact further (ih depth)
  | case5 c rest kind? length read next depth notOpening notLast notClosing ih =>
    exact further (ih depth)

private theorem begins_of_sees {s : Scan} {n : Nat} {literal : String} (sees : s.Sees n literal) :
    literal.toList <+: s.rest.drop n := by
  cases sees with
  | literal begins => exact List.isPrefixOf_iff_prefix.1 begins
  | tag isTag =>
    unfold Scan.atTag at isTag
    split at isTag
    · rename_i c rest ahead
      rw [ahead]
      exact ⟨c :: rest, rfl⟩
    · cases isTag
  | @char c n found =>
    obtain ⟨inside, same, _⟩ := List.findIdx?_eq_some_iff_getElem.1 found
    rw [List.drop_eq_getElem_cons inside, eq_of_beq same]
    exact ⟨s.rest.drop (n + 1), by simp⟩
  | text found => exact findText?_spec found
  | brace found => exact begins_of_closingBraceFrom n found

theorem slice?_of_sees {s : Scan} {n : Nat} {literal : String} (here : s.In source)
    (sees : s.Sees n literal) :
    slice? source (s.skip n).pos ((s.skip n).pos + literal.utf8ByteSize) = some literal ∧
      (s.skip (n + literal.toList.length)).pos = (s.skip n).pos + literal.utf8ByteSize := by
  obtain ⟨after, ahead⟩ := begins_of_sees sees
  have passed : s.rest.take (n + literal.toList.length) = s.rest.take n ++ literal.toList := by
    rw [List.take_add, ← ahead, List.take_left]
  have pos : (s.skip (n + literal.toList.length)).pos = (s.skip n).pos + byteSize literal.toList := by
    change s.pos + byteSize (s.rest.take (n + literal.toList.length)) = _
    rw [passed, byteSize_append, ← Nat.add_assoc]
    rfl
  have rest : (s.skip n).rest = literal.toList ++ (s.skip (n + literal.toList.length)).rest := by
    rw [Scan.rest_skip, Scan.rest_skip, ← List.drop_drop, ← ahead, List.drop_left]
  have slice := (Scan.in_iff.1 (here.skip n)).slice? rest pos
  rw [pos, byteSize_toList, String.ofList_toList] at slice
  rw [byteSize_toList] at pos
  exact ⟨slice, pos⟩

private theorem sees_of_atCloser {s : Scan} (closer : s.atCloser = true) :
    s.Sees 0 "</" ∨ s.Sees 0 "\x7b/" ∨ s.Sees 0 "\x7b:" := by
  have sees {literal : String} {rest : List Char} (ahead : s.rest = literal.toList ++ rest) :
      s.Sees 0 literal :=
    .literal (List.isPrefixOf_iff_prefix.2 ⟨rest, ahead.symm⟩)
  unfold Scan.atCloser at closer
  split at closer
  · rename_i ahead
    exact .inl (sees ahead)
  · rename_i ahead
    exact .inr (.inl (sees ahead))
  · rename_i ahead
    exact .inr (.inr (sees ahead))
  · cases closer

private theorem length_quotedReach_le (quote : Char) (text : List Char) :
    (quotedReach quote text).length ≤ text.length := by
  fun_induction quotedReach quote text <;> simp_all [Reach.add]

private theorem length_templateReach_le (depth : Nat) (text : List Char) :
    (templateReach depth text).length ≤ text.length := by
  fun_induction templateReach depth text <;> simp_all [Reach.add]

theorem length_blockCommentReach_le (text : List Char) :
    (blockCommentReach text).length ≤ text.length := by
  unfold blockCommentReach
  split
  · rename_i before found
    have mark := (findText?_spec found).length_le
    simp only [List.length_cons, List.length_nil, List.length_drop] at mark ⊢
    omega
  · exact Nat.le_refl _

/-- A token reaches at most to the end of the text. -/
theorem length_lexeme_le (c : Char) (rest : List Char) : (lexeme c rest).2 ≤ rest.length := by
  have run (p : Char → Bool) : (rest.takeWhile p).length ≤ rest.length :=
    (List.takeWhile_prefix p).length_le
  have behind {d : Char} (next : (c == '/' && rest.head? == some d) = true) {n : Nat}
      (bound : n ≤ rest.tail.length) : n + 1 ≤ rest.length := by
    cases rest with
    | nil => simp at next
    | cons _ _ => exact Nat.succ_le_succ bound
  have either {p : Prop} [Decidable p] {first second : Option TokenKind × Nat}
      (ifTrue : p → first.2 ≤ rest.length) (ifFalse : ¬p → second.2 ≤ rest.length) :
      (if p then first else second).2 ≤ rest.length := by
    by_cases holds : p
    · rw [if_pos holds]
      exact ifTrue holds
    · rw [if_neg holds]
      exact ifFalse holds
  have single {p : Prop} [Decidable p] {kind? : Option TokenKind}
      {second : Option TokenKind × Nat} (ifFalse : second.2 ≤ rest.length) :
      (if p then (kind?, 0) else second).2 ≤ rest.length :=
    either (fun _ => Nat.zero_le _) fun _ => ifFalse
  unfold lexeme
  refine single (either (fun _ => run _) fun _ => either (fun _ => run _) fun _ => ?_)
  refine either (fun _ => length_quotedReach_le c rest) fun _ => ?_
  refine either (fun _ => length_templateReach_le 0 rest) fun _ => ?_
  refine either (fun next => ?_) fun _ => either (fun next => ?_) fun _ => ?_
  · rw [Nat.add_comm]
    exact behind next (List.takeWhile_prefix _).length_le
  · exact behind next (length_blockCommentReach_le _)
  · exact single (single (single (single (single (single (single (single (Nat.zero_le _))))))))

namespace Scan

variable {s : Scan}

/-- The loop over the attributes of a tag ends, or it goes on from a later place. -/
theorem attributes_round (here : s.In source) :
    s.attributes = ([], s.skipBlank) ∨ ∃ t : Scan, t.In source ∧ s.pos < t.pos ∧
      s.attributes = (s.skipBlank.readAttribute.1.toList ++ t.attributes.1, t.attributes.2) := by
  rw [attributes]
  dsimp only
  split
  · exact .inl rfl
  split
  · exact .inl rfl
  · rename_i more _
    have read := reaches_readAttribute s.skipBlank
    have reached := s.reaches_skipBlank.trans read
    refine .inr ⟨s.skipBlank.readAttribute.2, in_iff.2 ((in_iff.1 here).trans reached), ?_, rfl⟩
    exact Nat.lt_of_le_of_lt s.reaches_skipBlank.pos_le (read.pos_lt (readAttribute_lt _ more))

/-- The loop over the parts of a quoted value ends, or it goes on from a later place. -/
theorem quotedParts_round (here : s.In source) (quote : Char) (opening : Nat) :
    (s.rest = [] ∨ s.rest.head? = some quote) ∧ (s.quotedParts quote opening).1 = [] ∨
      ∃ (parts : List ValuePart) (t : Scan), t.In source ∧ s.pos < t.pos ∧
        s.quotedParts quote opening =
          (parts ++ (t.quotedParts quote opening).1, (t.quotedParts quote opening).2) := by
  have onward {t : Scan} (reached : s.Reaches t) (shorter : t.rest.length < s.rest.length) :
      t.In source ∧ s.pos < t.pos :=
    ⟨in_iff.2 ((in_iff.1 here).trans reached), reached.pos_lt shorter⟩
  rw [quotedParts]
  split
  · rename_i ended
    exact .inl ⟨.inl ended, rfl⟩
  · rename_i c rest ahead
    have more : s.rest ≠ [] := by simp [ahead]
    dsimp only
    split
    · rename_i closes
      refine .inl ⟨.inr ?_, rfl⟩
      rw [ahead, List.head?_cons, eq_of_beq closes]
    split
    · have shorter := expression_skip_lt (o := s.pos) (Nat.succ_pos 0) more
      obtain ⟨place, further⟩ :=
        onward ((s.reaches_skip 1).trans (reaches_expression _ s.pos)) shorter
      exact .inr ⟨_, _, place, further, rfl⟩
    · obtain ⟨place, further⟩ := onward (s.reaches_skip _)
        (s.skip_lt (1 + (s.rest.tail.takeWhile fun d => d != quote && d != '{').length)
          (by omega) more)
      exact .inr ⟨[_], _, place, further, rfl⟩

end Scan

namespace Reading

variable {r next : Reading} {n : Nat}

/-- The pass over a source comes by a reading after some steps. -/
inductive Reached (source : String) : Nat → Reading → Prop
  | start : Reached source 0 (start source)
  | step {n : Nat} {r next : Reading} (before : Reached source n r)
      (stepped : r.step = some next) : Reached source (n + 1) next

theorem Reached.placed (reached : Reached source n r) : r.Placed source := by
  induction reached with
  | start => exact placed_start source
  | step _ stepped ih => exact ih.step stepped

/-- There are at most twice as many steps as characters. -/
theorem Reached.steps_le (reached : Reached source n r) :
    n + r.measure ≤ 2 * source.toList.length := by
  induction reached with
  | start => exact Nat.le_of_eq (Nat.zero_add _)
  | step _ stepped ih =>
    have falls := measure_step stepped
    omega

theorem Reached.finish (reached : Reached source n r) : ∃ m, Reached source m r.finish := by
  fun_induction Reading.finish r generalizing n with
  | case1 r ended => exact ⟨n, reached⟩
  | case2 r next stepped shorter ih => exact ih (reached.step stepped)

/-- A step passes characters, or the innermost open construct ends with it. -/
theorem Placed.advances (placed : r.Placed source) (stepped : r.step = some next) :
    r.scan.pos < next.scan.pos ∨
      r.scan.pos ≤ next.scan.pos ∧ next.stack.length < r.stack.length := by
  rcases step_cases placed.here stepped with ⟨frame, outer, top, rfl⟩ | ⟨_, further⟩
  · have onward := (placed.leads_leave top).reached
    have falls := falls_close r.scan r.nodes.reverse frame.construct
    unfold Reading.leave at onward ⊢
    generalize close r.scan r.nodes.reverse frame.construct = result at falls onward ⊢
    cases result with
    | goesOn scan construct => exact .inl (onward.pos_lt falls)
    | closed scan node =>
      refine .inr ⟨onward.pos_le, ?_⟩
      rw [top]
      exact Nat.lt_succ_self _
  · exact .inl further

end Reading

def ValuePart.span : ValuePart → Span
  | .text t => t.span
  | .expression e => e.span

def Attribute.spans : Attribute → List Span
  | .plain a => a.span :: a.value.map ValuePart.span
  | .shorthand e | .spread e => [e.span]
  | .directive d => d.span :: d.value.toList.map (·.span)

mutual

def Node.spans : Node → List Span
  | .element head children => head.span :: head.attributes.flatMap Attribute.spans ++ spansOf children
  | .text t | .comment t => [t.span]
  | .mustache span e => [span, e.span]
  | .tag span _ e => span :: e.toList.map (·.span)
  | .ifBlock span condition consequent alternate =>
    span :: condition.span :: spansOf consequent ++ alternate.spans
  | .each head body fallback =>
    head.span :: head.parts.map (·.span) ++ spansOf body ++ spansOfBranch fallback
  | .await head pending onThen onCatch =>
    head.span :: head.parts.map (·.span) ++ spansOf pending ++ spansOfBranch onThen
      ++ spansOfBranch onCatch
  | .key span e body => span :: e.span :: spansOf body

def spansOf : List Node → List Span
  | [] => []
  | node :: rest => node.spans ++ spansOf rest

/-- The spans of a branch, if it is there. -/
def spansOfBranch : Option (List Node) → List Span
  | none => []
  | some nodes => spansOf nodes

/-- The spans of what follows the consequent of a condition. -/
def Alternate.spans : Alternate → List Span
  | .absent => []
  | .otherwise nodes => spansOf nodes
  | .elseIf span condition consequent alternate =>
    span :: condition.span :: spansOf consequent ++ alternate.spans

end

def Script.spans (script : Script) : List Span :=
  [script.span, script.openTag, script.contentSpan, script.closeTag]
    ++ script.attributes.flatMap Attribute.spans

def Document.spans (d : Document) : List Span :=
  d.span :: d.scripts.flatMap Script.spans
    ++ d.styles.flatMap (fun style => [style.span, style.contentSpan]) ++ spansOf d.fragment

theorem Attribute.Placed.spans_fit {a : Attribute} {parent : Span} (placed : a.Placed source parent) :
    ∀ s ∈ a.spans, s.Fits source := by
  cases placed with
  | plain span value =>
    refine List.forall_mem_cons.2 ⟨span.fits, List.forall_mem_map.2 fun part member => ?_⟩
    cases part with
    | text t => exact .of_slice? (value _ member).slice
    | expression e => exact Expression.Placed.fits (value _ member)
  | shorthand e | spread e => exact List.forall_mem_singleton.2 e.fits
  | directive span value =>
    refine List.forall_mem_cons.2 ⟨span.fits, List.forall_mem_map.2 fun e member => ?_⟩
    exact (value e (Option.mem_toList.1 member)).fits

private theorem fits_of_parts {es : List Expression} {parent : Span}
    (placed : ∀ e ∈ es, e.Placed source parent) : ∀ s ∈ es.map (·.span), s.Fits source :=
  List.forall_mem_map.2 fun e member => (placed e member).fits

private theorem fits_of_attributes {as : List Attribute} {parent : Span}
    (placed : ∀ a ∈ as, a.Placed source parent) :
    ∀ s ∈ as.flatMap Attribute.spans, s.Fits source := by
  intro s member
  obtain ⟨a, inTag, inAttribute⟩ := List.mem_flatMap.1 member
  exact (placed a inTag).spans_fit s inAttribute

mutual

private theorem spans_fit_node (node : Node) {parent : Span} (placed : node.Placed source parent) :
    ∀ s ∈ node.spans, s.Fits source := by
  cases node with
  | element head children =>
    cases placed with
    | element span attributes inner =>
      refine List.forall_mem_append.2 ⟨List.forall_mem_cons.2 ⟨span.fits, ?_⟩, ?_⟩
      · exact fits_of_attributes attributes
      · exact spans_fit_nodes children inner
  | text t =>
    cases placed with
    | text here => exact List.forall_mem_singleton.2 (.of_slice? here.slice)
  | comment c =>
    cases placed with
    | comment here => exact List.forall_mem_singleton.2 here.fits
  | mustache span e =>
    cases placed with
    | mustache span inner =>
      exact List.forall_mem_cons.2 ⟨span.fits, List.forall_mem_singleton.2 inner.fits⟩
  | tag span kind e =>
    cases placed with
    | tag span inner =>
      refine List.forall_mem_cons.2 ⟨span.fits, List.forall_mem_map.2 fun e member => ?_⟩
      exact (inner e (Option.mem_toList.1 member)).fits
  | ifBlock span condition consequent alternate =>
    cases placed with
    | ifBlock span head inner other =>
      refine List.forall_mem_append.2 ⟨List.forall_mem_cons.2 ⟨span.fits, ?_⟩, ?_⟩
      · exact List.forall_mem_cons.2 ⟨head.fits, spans_fit_nodes consequent inner⟩
      · exact spans_fit_alternate alternate other
  | each head body fallback =>
    cases placed with
    | each span header inner others =>
      refine List.forall_mem_append.2 ⟨List.forall_mem_append.2 ⟨List.forall_mem_cons.2
        ⟨span.fits, fits_of_parts header⟩, spans_fit_nodes body inner⟩, ?_⟩
      exact spans_fit_branch fallback others
  | await head pending onThen onCatch =>
    cases placed with
    | await span header inner thens catches =>
      refine List.forall_mem_append.2 ⟨List.forall_mem_append.2 ⟨List.forall_mem_append.2
        ⟨List.forall_mem_cons.2 ⟨span.fits, fits_of_parts header⟩, ?_⟩, ?_⟩, ?_⟩
      · exact spans_fit_nodes pending inner
      · exact spans_fit_branch onThen thens
      · exact spans_fit_branch onCatch catches
  | key span e body =>
    cases placed with
    | key span head inner =>
      refine List.forall_mem_cons.2 ⟨span.fits, List.forall_mem_cons.2 ⟨head.fits, ?_⟩⟩
      exact spans_fit_nodes body inner

private theorem spans_fit_nodes (nodes : List Node) {parent : Span}
    (placed : ∀ node ∈ nodes, node.Placed source parent) : ∀ s ∈ spansOf nodes, s.Fits source := by
  cases nodes with
  | nil => exact nofun
  | cons node rest =>
    refine List.forall_mem_append.2 ⟨spans_fit_node node (placed node (.head _)), ?_⟩
    exact spans_fit_nodes rest fun other member => placed other (.tail _ member)

private theorem spans_fit_branch (branch : Option (List Node)) {parent : Span}
    (placed : ∀ nodes ∈ branch, ∀ node ∈ nodes, node.Placed source parent) :
    ∀ s ∈ spansOfBranch branch, s.Fits source := by
  cases branch with
  | none => exact nofun
  | some nodes => exact spans_fit_nodes nodes (placed nodes rfl)

private theorem spans_fit_alternate (rest : Alternate) {parent : Span} (placed : rest.Placed source parent) :
    ∀ s ∈ rest.spans, s.Fits source := by
  cases rest with
  | absent => exact nofun
  | otherwise nodes =>
    cases placed with
    | otherwise inner => exact spans_fit_nodes nodes inner
  | elseIf span condition consequent alternate =>
    cases placed with
    | elseIf span head inner other =>
      refine List.forall_mem_append.2 ⟨List.forall_mem_cons.2 ⟨span.fits, ?_⟩, ?_⟩
      · exact List.forall_mem_cons.2 ⟨head.fits, spans_fit_nodes consequent inner⟩
      · exact spans_fit_alternate alternate other

end

theorem Document.Placed.spans_fit {d : Document} (placed : d.Placed source) :
    ∀ s ∈ d.spans, s.Fits source := by
  have whole : d.span.Fits source := by
    rw [placed.span]
    exact ⟨Nat.zero_le _, isCut_zero source, isCut_size source⟩
  refine List.forall_mem_append.2 ⟨List.forall_mem_append.2 ⟨List.forall_mem_cons.2 ⟨whole, ?_⟩, ?_⟩,
    spans_fit_nodes _ placed.fragment⟩
  · intro s member
    obtain ⟨script, inDocument, inScript⟩ := List.mem_flatMap.1 member
    obtain ⟨span, openTag, content, closeTag, attributes⟩ := placed.scripts script inDocument
    have parts : ∀ s ∈ [script.span, script.openTag, script.contentSpan, script.closeTag],
        s.Fits source := by
      simp only [List.forall_mem_cons]
      exact ⟨span.fits, openTag.fits, content.fits, closeTag.fits, nofun⟩
    exact List.forall_mem_append.2 ⟨parts, fits_of_attributes attributes⟩ s inScript
  · intro s member
    obtain ⟨style, inDocument, inStyle⟩ := List.mem_flatMap.1 member
    obtain ⟨span, content⟩ := placed.styles style inDocument
    exact List.forall_mem_cons.2 ⟨span.fits, List.forall_mem_singleton.2 content.fits⟩ s inStyle

/-- Reading the source ends, and reads nothing out of range or off a character boundary. -/
structure Safe (source : String) : Prop where
  /-- The pass takes at most two steps for each character, and stays in the source. -/
  cursor : ∀ n r, Reading.Reached source n r →
    n ≤ 2 * source.toList.length ∧ r.scan.In source ∧ r.scan.pos ≤ source.utf8ByteSize
  /-- A step passes characters, or the innermost open construct ends with it. -/
  step : ∀ n r next, Reading.Reached source n r → r.step = some next →
    r.scan.pos < next.scan.pos ∨
      r.scan.pos ≤ next.scan.pos ∧ next.stack.length < r.stack.length
  /-- The pass comes by a last reading, and then all of the source has been passed. -/
  consumed : ∃ n, Reading.Reached source n (Reading.start source).finish ∧
    (Reading.start source).finish.step = none ∧ (Reading.start source).finish.scan.rest = [] ∧
    (Reading.start source).finish.scan.pos = source.utf8ByteSize
  /-- The loop over attributes ends or goes on from a later place. -/
  attributes : ∀ s : Scan, s.In source →
    s.attributes = ([], s.skipBlank) ∨ ∃ t : Scan, t.In source ∧ s.pos < t.pos ∧
      s.attributes = (s.skipBlank.readAttribute.1.toList ++ t.attributes.1, t.attributes.2)
  /-- The loop over the parts of a quoted value ends or goes on from a later place. -/
  quotedParts : ∀ (s : Scan) (quote : Char) (opening : Nat), s.In source →
    (s.rest = [] ∨ s.rest.head? = some quote) ∧ (s.quotedParts quote opening).1 = [] ∨
      ∃ (parts : List ValuePart) (t : Scan), t.In source ∧ s.pos < t.pos ∧
        s.quotedParts quote opening =
          (parts ++ (t.quotedParts quote opening).1, (t.quotedParts quote opening).2)
  /-- Readers move by characters, which leads from place to place. -/
  skip : ∀ (s : Scan) (n : Nat), s.In source → (s.skip n).In source
  /-- What readers pass by its size in bytes is what they have seen. -/
  sees : ∀ (s : Scan) (n : Nat) (literal : String), s.In source → s.Sees n literal →
    slice? source (s.skip n).pos ((s.skip n).pos + literal.utf8ByteSize) = some literal ∧
      (s.skip (n + literal.toList.length)).pos = (s.skip n).pos + literal.utf8ByteSize
  /-- One of three texts of two bytes is ahead where something closes. -/
  closer : ∀ s : Scan, s.atCloser = true → s.Sees 0 "</" ∨ s.Sees 0 "\x7b/" ∨ s.Sees 0 "\x7b:"
  /-- No token of an expression reaches behind the end of its text. -/
  lexeme : ∀ (c : Char) (rest : List Char), (lexeme c rest).2 ≤ rest.length
  /-- No slice of a header fails. -/
  headers : ∀ e : Expression, EachHeader.split? e = some (EachHeader.split e) ∧
    AwaitHeader.split? e = some (AwaitHeader.split e) ∧
    elseIfConditionChecked e = some (elseIfCondition? e) ∧
    bracedAttributeChecked e = some (Scan.bracedAttribute? e)
  spans : ∀ s ∈ (parse source).document.spans, s.Fits source
  errors : ∀ e ∈ (parse source).errors, e.span.Fits source

/-- Reading is safe for every source. -/
theorem parse_safe (source : String) : Safe source where
  cursor n r reached := by
    have here := Scan.in_iff.2 reached.placed.here
    have steps := reached.steps_le
    exact ⟨by omega, here, here.isCut.le⟩
  step n r next reached := reached.placed.advances
  consumed := by
    obtain ⟨n, reached⟩ := Reading.Reached.start.finish
    have ended := Reading.step_finish (Reading.start source)
    exact ⟨n, reached, ended, (Reading.ended_of_step ended).1, reached.placed.pos_of_step ended⟩
  attributes s := Scan.attributes_round
  quotedParts s quote opening here := Scan.quotedParts_round here quote opening
  skip s n here := here.skip n
  sees s n literal := slice?_of_sees
  closer s := sees_of_atCloser
  lexeme := length_lexeme_le
  headers e := ⟨eachHeader_split? e, awaitHeader_split? e, elseIfConditionChecked_eq e,
    bracedAttributeChecked_eq e⟩
  spans := ((Reading.placed_start source).finish.document (Reading.step_finish _)).spans_fit
  errors e noted := (Reading.placed_start source).finish.errors e (List.mem_reverse.1 noted)

end TypedSvelte.Markup
