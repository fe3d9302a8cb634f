import Mathlib.Data.List.TakeWhile
import TypedSvelte.Proofs.Markup.RenderedParts
import TypedSvelte.Proofs.Markup.Steps

/-!
# Openers and closers

In a source without errors an element or a block is an opening tag, nodes side by side and a
closing tag, with continuations in between (`Node.Nested`). An open construct holds the branches
that have been read and the opener of the one being read (`Construct.Held`). Where it is closed, a
closer of its own is passed, or an error is noted (`nested_close`).
-/
namespace TypedSvelte.Markup

open Scan Reading

variable {source : String} {s t : Scan} {stop : Nat}

theorem skip_skip (s : Scan) (n m : Nat) : (s.skip n).skip m = s.skip (n + m) := by
  have pos : ((s.skip n).skip m).pos = (s.skip (n + m)).pos := by
    change s.pos + byteSize (s.rest.take n) + byteSize ((s.rest.drop n).take m) = s.pos + _
    rw [List.take_add, byteSize_append, Nat.add_assoc]
  have rest : ((s.skip n).skip m).rest = (s.skip (n + m)).rest := List.drop_drop
  exact congrArg₂ (Scan.mk · · s.errors) pos rest

/-- The span begins with `literal`, which no character of the kind `goesOn` goes on. -/
def Opener (source literal : String) (goesOn : Char → Bool) (s : Span) : Prop :=
  ∃ text, slice? source s.start s.stop = some (literal ++ text) ∧ EndsRun goesOn text.toList

/-- The span begins with `literal`, as an opener does, and reaches up to the first `mark` or to the
end of the source. -/
def Closer (source literal : String) (goesOn : Char → Bool) (mark : Char) (s : Span) : Prop :=
  ∃ text, slice? source s.start s.stop = some (literal ++ text) ∧ EndsRun goesOn text.toList ∧
    mark ∉ text.toList.dropLast ∧
    (text.toList.getLast? = some mark ∨ s.stop = source.utf8ByteSize)

def Segment (source literal : String) (goesOn : Char → Bool) (nodes : List Node) (s : Span) :
    Prop :=
  ∃ first, Opener source literal goesOn ⟨s.start, first⟩ ∧
    Tiles first (nodes.map Node.span) s.stop

theorem opener_of_word {literal : String} {rest : List Char} {goesOn : Char → Bool}
    (here : (ofSource source).Reaches s) (ahead : s.rest = literal.toList ++ rest)
    (ends : EndsRun goesOn rest) (onward : (s.skip literal.toList.length).Reaches t) :
    Opener source literal goesOn ⟨s.pos, t.pos⟩ := by
  obtain ⟨text, passed, pos⟩ := onward
  have behind : rest = text ++ t.rest := by rw [← passed, rest_skip, ahead, List.drop_left]
  have size : (s.skip literal.toList.length).pos = s.pos + byteSize literal.toList := by
    change s.pos + byteSize (s.rest.take _) = _
    rw [ahead, List.take_left]
  have whole : s.rest = literal.toList ++ text ++ t.rest := by
    rw [ahead, behind, List.append_assoc]
  have slice := here.slice? whole (by rw [pos, size, byteSize_append, Nat.add_assoc])
  rw [String.ofList_append, String.ofList_toList] at slice
  refine ⟨String.ofList text, slice, fun c first => ends c ?_⟩
  rw [String.toList_ofList] at first
  rw [behind, List.head?_append, first]
  rfl

/-- What is passed up to a mark holds no other one, and the mark is there unless the source ends. -/
theorem skipPast_stops (s : Scan) (mark : Char) :
    ∃ passed, s.rest = passed ++ (s.skipPast mark).rest ∧ mark ∉ passed.dropLast ∧
      (passed.getLast? = some mark ∨ (s.skipPast mark).rest = []) := by
  unfold skipPast
  cases found : s.rest.findIdx? (· == mark) with
  | none =>
    have absent : mark ∉ s.rest := by
      intro member
      exact absurd (List.findIdx?_eq_none_iff.1 found mark member) (by simp)
    have free : mark ∉ s.rest.dropLast := fun member => absent (List.dropLast_subset _ member)
    refine ⟨s.rest, ?_, free, Or.inr List.drop_length⟩
    change _ = _ ++ s.rest.drop s.rest.length
    rw [List.drop_length, List.append_nil]
  | some n =>
    obtain ⟨inside, isMark, before⟩ := List.findIdx?_eq_some_iff_getElem.1 found
    have split : s.rest.take (n + 1) = s.rest.take n ++ [mark] := by
      rw [List.take_succ_eq_append_getElem inside, eq_of_beq isMark]
    refine ⟨s.rest.take (n + 1), (List.take_append_drop _ _).symm, ?_, Or.inl ?_⟩
    · rw [split, List.dropLast_concat]
      intro member
      obtain ⟨i, early, same⟩ := List.mem_take_iff_getElem.1 member
      have earlier : i < n := by omega
      exact absurd (before i earlier) (by simp [same])
    · rw [split, List.getLast?_concat]

theorem closer_skipPast {literal : String} {rest : List Char} {goesOn : Char → Bool} {mark : Char}
    (here : (ofSource source).Reaches s) (ahead : s.rest = literal.toList ++ rest)
    (ends : EndsRun goesOn rest) (absent : mark ∉ literal.toList) :
    Closer source literal goesOn mark ⟨s.pos, (s.skipPast mark).pos⟩ := by
  obtain ⟨passed, whole, pos, ⟨text, rfl⟩⟩ := skipPast_passes ⟨rest, ahead.symm⟩ absent
  obtain ⟨same, sameWhole, free, stops⟩ := skipPast_stops s mark
  obtain rfl := List.append_cancel_right (sameWhole.symm.trans whole)
  have slice := here.slice? whole pos
  rw [String.ofList_append, String.ofList_toList] at slice
  refine ⟨String.ofList text, slice, ?_, ?_, ?_⟩
  · intro c first
    rw [String.toList_ofList] at first
    rw [whole, List.append_assoc] at ahead
    refine ends c ?_
    rw [← List.append_cancel_left ahead, List.head?_append, first]
    rfl
  · rw [String.toList_ofList]
    cases text with
    | nil => exact nofun
    | cons c cs =>
      rw [List.dropLast_append_of_ne_nil (List.cons_ne_nil _ _)] at free
      exact fun member => free (List.mem_append_right _ member)
  · rw [String.toList_ofList]
    refine stops.imp (fun last => ?_) (Reaches.pos_of_nil (here.trans (s.reaches_skipPast mark)))
    rw [List.getLast?_append] at last
    cases found : text.getLast? with
    | some c =>
      rw [found] at last
      exact last
    | none =>
      rw [found] at last
      exact absurd (List.mem_of_getLast? last) absent

private theorem ahead_of_atWord {before word : String} (atWord : s.atWord before word = true) :
    ∃ rest, s.rest = (before ++ word).toList ++ rest ∧ EndsWord rest := by
  rw [Scan.atWord, Bool.and_eq_true, Bool.not_eq_true'] at atWord
  obtain ⟨begins, ends⟩ := atWord
  refine ⟨_, rest_of_startsWith begins, fun c first => ?_⟩
  rw [String.length_toList, String.length_append] at first
  rw [first] at ends
  exact ends

/-- Two characters are ahead, the word behind them, and a text that does not go on with the word. -/
theorem rest_of_word {before : String} (begins : s.startsWith before = true)
    (size : before.toList.length = 2) :
    s.rest = (before ++ (s.skip 2).word.1).toList ++ (s.rest.drop 2).dropWhile isIdentChar ∧
      (s.skip 2).word.2 = s.skip (before ++ (s.skip 2).word.1).toList.length := by
  have run : (s.skip 2).word.1.toList = (s.rest.drop 2).takeWhile isIdentChar := by
    rw [Scan.word, String.toList_ofList]
    exact (List.prefix_iff_eq_take.1 (List.takeWhile_prefix _)).symm
  constructor
  · rw [String.toList_append, run, List.append_assoc, List.takeWhile_append_dropWhile, ← size]
    exact rest_of_startsWith begins
  · rw [String.toList_append, List.length_append, size, run]
    exact skip_skip s 2 _

/-- An opener of two characters and the word behind them. -/
theorem opener_word {before : String} (here : (ofSource source).Reaches s)
    (begins : s.startsWith before = true) (size : before.toList.length = 2)
    (onward : (s.skip 2).word.2.Reaches t) :
    Opener source (before ++ (s.skip 2).word.1) isIdentChar ⟨s.pos, t.pos⟩ := by
  obtain ⟨ahead, passed⟩ := rest_of_word begins size
  rw [passed] at onward
  exact opener_of_word here ahead (endsRun_dropWhile _ _) onward

private theorem word_of_atWord {before word : String} (atWord : s.atWord before word = true)
    (size : before.toList.length = 2) (chars : ∀ c ∈ word.toList, isIdentChar c = true) :
    (s.skip 2).word.1 = word := by
  obtain ⟨rest, ahead, ends⟩ := ahead_of_atWord atWord
  have behind : (s.skip 2).rest = word.toList ++ rest := by
    rw [rest_skip, ahead, String.toList_append, List.append_assoc, ← size, List.drop_left]
  rw [(lands_word chars behind ends).1, String.ofList_toList]

/-- The characters that go on with the name in an opening tag. -/
def opensName (c : Char) : Bool := !(isBlank c || c == '/' || c == '>')

/-- The characters that go on with the name in a closing tag. The closing tag of a script or a style
is looked for as a text, whatever follows it. -/
def closesName (name : String) (c : Char) : Bool :=
  !(name == "script" || name == "style" || isBlank c || c == '>')

private theorem closesName_of_ends {c : Char} (name : String) (ends : (!(isBlank c || c == '>')) = false) :
    closesName name c = false := by
  rw [Bool.not_eq_false', Bool.or_eq_true] at ends
  rcases ends with blank | mark
  · simp [closesName, blank]
  · simp [closesName, mark]

/-- The branches of an `{#await}` block that have been read up to the offset `stop` are segments of
the source, in the order in which they were read. -/
inductive Awaiting.Held (source : String) : Nat → Awaiting → Prop
  | pending {start stop : Nat} {e : Expression} {nodes : List Node}
      (segment : Segment source "\x7b#await" isIdentChar nodes ⟨start, stop⟩) :
      Awaiting.Held source stop ⟨start, e, nodes, none, none⟩
  /-- The short form opens with a branch. -/
  | short {start stop : Nat} {e : Expression} {branch : AwaitBranch} {binding : Option Expression}
      {nodes : List Node} (segment : Segment source "\x7b#await" isIdentChar nodes ⟨start, stop⟩) :
      Awaiting.Held source stop (Awaiting.put ⟨start, e, [], none, none⟩ branch binding nodes)
  | branch {mid stop : Nat} {a : Awaiting} {branch : AwaitBranch} {binding : Option Expression}
      {nodes : List Node} (before : Awaiting.Held source mid a) (lacks : a.lacks branch = true)
      (segment : Segment source ("\x7b:" ++ branch.word) isIdentChar nodes ⟨mid, stop⟩) :
      Awaiting.Held source stop (a.put branch binding nodes)

mutual

/-- An element or a block is an opener, nodes side by side and its own closer, with its
continuations in between, and so is every node within it. -/
inductive Node.Nested (source : String) : Node → Prop
  | leaf {head : ElementHead} (closed : head.selfClosing = true ∨ isVoid head.name = true) :
      Node.Nested source (.element head [])
  | element {head : ElementHead} {nodes : List Node} {last : Nat}
      (leftOpen : head.selfClosing = false ∧ isVoid head.name = false)
      (body : Segment source ("<" ++ head.name) opensName nodes ⟨head.span.start, last⟩)
      (closer : Closer source ("</" ++ head.name) (closesName head.name) '>' ⟨last, head.span.stop⟩)
      (children : ∀ node ∈ nodes, Node.Nested source node) :
      Node.Nested source (.element head nodes)
  | text {t : RawText} : Node.Nested source (.text t)
  | comment {c : RawText} : Node.Nested source (.comment c)
  | mustache {s : Span} {e : Expression} : Node.Nested source (.mustache s e)
  | tag {s : Span} {kind : TagKind} {e? : Option Expression} : Node.Nested source (.tag s kind e?)
  | ifBlock {s : Span} {e : Expression} {nodes : List Node} {rest : Alternate} {mid last : Nat}
      (body : Segment source "\x7b#if" isIdentChar nodes ⟨s.start, mid⟩)
      (alternate : Alternate.Nested source mid last rest)
      (closer : Closer source "\x7b/if" isIdentChar '}' ⟨last, s.stop⟩)
      (consequent : ∀ node ∈ nodes, Node.Nested source node) :
      Node.Nested source (.ifBlock s e nodes rest)
  | each {head : EachHead} {nodes : List Node} {last : Nat}
      (body : Segment source "\x7b#each" isIdentChar nodes ⟨head.span.start, last⟩)
      (closer : Closer source "\x7b/each" isIdentChar '}' ⟨last, head.span.stop⟩)
      (inner : ∀ node ∈ nodes, Node.Nested source node) :
      Node.Nested source (.each head nodes none)
  | eachElse {head : EachHead} {nodes others : List Node} {mid last : Nat}
      (body : Segment source "\x7b#each" isIdentChar nodes ⟨head.span.start, mid⟩)
      (fallback : Segment source "\x7b:else" isIdentChar others ⟨mid, last⟩)
      (closer : Closer source "\x7b/each" isIdentChar '}' ⟨last, head.span.stop⟩)
      (inner : ∀ node ∈ nodes, Node.Nested source node)
      (fallbackInner : ∀ node ∈ others, Node.Nested source node) :
      Node.Nested source (.each head nodes (some others))
  | await {a : Awaiting} {last stop : Nat} (branches : a.Held source last)
      (closer : Closer source "\x7b/await" isIdentChar '}' ⟨last, stop⟩)
      (inner : ∀ nodes ∈ a.branches, ∀ node ∈ nodes, Node.Nested source node) :
      Node.Nested source (a.node stop)
  | key {s : Span} {e : Expression} {nodes : List Node} {last : Nat}
      (body : Segment source "\x7b#key" isIdentChar nodes ⟨s.start, last⟩)
      (closer : Closer source "\x7b/key" isIdentChar '}' ⟨last, s.stop⟩)
      (inner : ∀ node ∈ nodes, Node.Nested source node) : Node.Nested source (.key s e nodes)

/-- What follows the consequent of a condition reaches from one offset to another, where the closer
of the whole condition stands. -/
inductive Alternate.Nested (source : String) : Nat → Nat → Alternate → Prop
  | absent {last : Nat} : Alternate.Nested source last last .absent
  | otherwise {mid last : Nat} {nodes : List Node}
      (branch : Segment source "\x7b:else" isIdentChar nodes ⟨mid, last⟩)
      (inner : ∀ node ∈ nodes, Node.Nested source node) :
      Alternate.Nested source mid last (.otherwise nodes)
  | elseIf {first mid last : Nat} {e : Expression} {nodes : List Node} {rest : Alternate}
      (body : Segment source "\x7b:else" isIdentChar nodes ⟨first, mid⟩)
      (alternate : Alternate.Nested source mid last rest)
      (consequent : ∀ node ∈ nodes, Node.Nested source node) :
      Alternate.Nested source first last (.elseIf ⟨first, last⟩ e nodes rest)

end

def armOpener (earlier : List Arm) : String :=
  if earlier.isEmpty then "\x7b#if" else "\x7b:else"

/-- The arms, innermost first, are segments of the source up to the offset `stop`. -/
inductive ArmsHeld (source : String) : Nat → List Arm → Prop
  | nil {stop : Nat} : ArmsHeld source stop []
  | cons {stop : Nat} {arm : Arm} {outer : List Arm}
      (here : Segment source (armOpener outer) isIdentChar arm.consequent ⟨arm.start, stop⟩)
      (inner : ∀ node ∈ arm.consequent, node.Nested source)
      (before : ArmsHeld source arm.start outer) : ArmsHeld source stop (arm :: outer)

/-- What an open construct holds are nested segments of the source, and the nodes being read begin
at the offset `first`, where the opener of their branch ends. -/
inductive Construct.Held (source : String) (first : Nat) : Construct → Prop
  | element {start : Nat} {name : String} {attributes : List Attribute}
      (leftOpen : isVoid name = false)
      (opener : Opener source ("<" ++ name) opensName ⟨start, first⟩) :
      Held source first (.element start name attributes)
  | arm {start : Nat} {e : Expression} {earlier : List Arm}
      (opener : Opener source (armOpener earlier) isIdentChar ⟨start, first⟩)
      (before : ArmsHeld source start earlier) : Held source first (.arm start e earlier)
  | otherwise {mid : Nat} {arms : List Arm} (filled : arms ≠ [])
      (opener : Opener source "\x7b:else" isIdentChar ⟨mid, first⟩)
      (before : ArmsHeld source mid arms) : Held source first (.otherwise arms)
  | eachBody {start : Nat} {header : EachHeader}
      (opener : Opener source "\x7b#each" isIdentChar ⟨start, first⟩) :
      Held source first (.eachBody start header)
  | eachFallback {start mid : Nat} {header : EachHeader} {nodes : List Node}
      (opener : Opener source "\x7b:else" isIdentChar ⟨mid, first⟩)
      (body : Segment source "\x7b#each" isIdentChar nodes ⟨start, mid⟩)
      (inner : ∀ node ∈ nodes, node.Nested source) :
      Held source first (.eachFallback start header nodes)
  | awaitPending {start : Nat} {e : Expression}
      (opener : Opener source "\x7b#await" isIdentChar ⟨start, first⟩) :
      Held source first (.awaitPending start e)
  | awaitShort {start : Nat} {e : Expression} {branch : AwaitBranch} {binding : Option Expression}
      (opener : Opener source "\x7b#await" isIdentChar ⟨start, first⟩) :
      Held source first (.awaitBranch ⟨start, e, [], none, none⟩ branch binding)
  | awaitBranch {mid : Nat} {done : Awaiting} {branch : AwaitBranch} {binding : Option Expression}
      (opener : Opener source ("\x7b:" ++ branch.word) isIdentChar ⟨mid, first⟩)
      (before : done.Held source mid) (lacks : done.lacks branch = true)
      (inner : ∀ nodes ∈ done.branches, ∀ node ∈ nodes, node.Nested source) :
      Held source first (.awaitBranch done branch binding)
  | key {start : Nat} {e : Expression}
      (opener : Opener source "\x7b#key" isIdentChar ⟨start, first⟩) :
      Held source first (.key start e)

namespace Reading

/-- What becomes of a construct is nested. -/
inductive Closing.Nested (source : String) : Closing → Prop
  | goesOn {scan : Scan} {construct : Construct} (held : construct.Held source scan.pos) :
      Nested source (.goesOn scan construct)
  | closed {scan : Scan} {node : Node} (nested : node.Nested source) :
      Nested source (.closed scan node)

variable {first start : Nat} {nodes : List Node}

private theorem nested_conditionNode {mid close : Nat} {arms : List Arm} {rest : Alternate}
    (held : ArmsHeld source mid arms) (filled : arms ≠ [])
    (alternate : rest.Nested source mid stop)
    (closer : Closer source "\x7b/if" isIdentChar '}' ⟨stop, close⟩) :
    (conditionNode stop close rest arms).Nested source := by
  induction arms generalizing mid rest with
  | nil => exact absurd rfl filled
  | cons arm outer ih =>
    cases held with
    | cons here inner before =>
      cases outer with
      | nil => exact .ifBlock here alternate closer inner
      | cons next outer =>
        exact ih before (List.cons_ne_nil _ _) (.elseIf here alternate inner)

/-- The end of a block is passed, or there is an error. -/
theorem closer_closeBlock {block : String} (here : (ofSource source).Reaches s)
    (free : '}' ∉ ("\x7b/" ++ block).toList)
    (accepted : (closeBlock s block start).errors = []) :
    Closer source ("\x7b/" ++ block) isIdentChar '}' ⟨s.pos, (closeBlock s block start).pos⟩ := by
  unfold closeBlock at accepted ⊢
  split at accepted
  · rename_i atEnd
    rw [if_pos atEnd]
    obtain ⟨rest, ahead, ends⟩ := ahead_of_atWord atEnd
    exact closer_skipPast here ahead ends free
  · exact absurd accepted (errors_fail_ne _ _ _)

/-- The closing tag of an element is passed, or there is an error. -/
theorem closer_closeTag {name : String} (here : (ofSource source).Reaches s)
    (accepted : (closeTag s name start).errors = []) :
    Closer source ("</" ++ name) (closesName name) '>' ⟨s.pos, (closeTag s name start).pos⟩ := by
  unfold closeTag at accepted ⊢
  dsimp only at accepted ⊢
  split at accepted
  · rename_i begins
    rw [if_pos begins]
    split at accepted
    · rename_i same
      rw [if_pos same]
      have named := eq_of_beq same
      have chars := congrArg String.toList named
      rw [String.toList_ofList] at chars
      have ahead : s.rest = ("</" ++ name).toList ++
          (s.rest.drop 2).dropWhile fun c => !(isBlank c || c == '>') := by
        rw [String.toList_append, ← chars, List.append_assoc, List.takeWhile_append_dropWhile]
        exact rest_of_startsWith begins
      refine closer_skipPast here ahead (fun c first => ?_) ?_
      · exact closesName_of_ends name (endsRun_dropWhile _ _ c first)
      · rw [String.toList_append, ← chars, List.mem_append, not_or]
        refine ⟨by decide, fun member => ?_⟩
        exact absurd (List.mem_takeWhile_imp member) (by decide)
    · exact absurd accepted (errors_fail_ne _ _ _)
  · exact absurd accepted (errors_fail_ne _ _ _)

/-- The opener of the next branch, when the construct goes on. -/
theorem opener_continuation {word : String} (here : (ofSource source).Reaches s)
    (atWord : s.atWord "\x7b:" word = true) (chars : ∀ c ∈ word.toList, isIdentChar c = true) :
    Opener source ("\x7b:" ++ word) isIdentChar ⟨s.pos, (continuation s).2.pos⟩ := by
  have begins : s.startsWith "\x7b:" = true := by
    obtain ⟨rest, ahead, _⟩ := ahead_of_atWord atWord
    rw [startsWith, ahead, String.toList_append, List.append_assoc]
    exact List.isPrefixOf_iff_prefix.2 (List.prefix_append _ _)
  have opener := opener_word here begins rfl (reaches_expression (s.skip 2).word.2 s.pos)
  rw [word_of_atWord atWord rfl chars] at opener
  exact opener

private theorem nested_closeCondition {mid : Nat} {arms : List Arm} {rest : Alternate}
    (here : (ofSource source).Reaches s) (held : ArmsHeld source mid arms) (filled : arms ≠ [])
    (alternate : rest.Nested source mid s.pos)
    (accepted : (closeCondition s arms rest).scan.errors = []) :
    (closeCondition s arms rest).Nested source :=
  .closed (nested_conditionNode held filled alternate (closer_closeBlock here (by decide) accepted))

private theorem nested_closeAwait {a : Awaiting} (here : (ofSource source).Reaches s)
    (held : a.Held source s.pos) (inner : ∀ nodes ∈ a.branches, ∀ node ∈ nodes, node.Nested source)
    (accepted : (closeAwait s a).scan.errors = []) : (closeAwait s a).Nested source := by
  unfold closeAwait at accepted ⊢
  cases next : nextBranch? s a with
  | some branch =>
    have found := List.find?_some next
    rw [Bool.and_eq_true] at found
    obtain ⟨atWord, lacks⟩ := found
    have chars : ∀ c ∈ branch.word.toList, isIdentChar c = true :=
      List.all_eq_true.1 (by cases branch <;> decide)
    exact .goesOn (.awaitBranch (opener_continuation here atWord chars) held lacks inner)
  | none =>
    rw [next] at accepted
    exact .closed (.await held (closer_closeBlock here (by decide) accepted) inner)

/-- What becomes of a construct is nested, or an error is noted. -/
theorem nested_close {construct : Construct} (here : (ofSource source).Reaches s)
    (held : construct.Held source first) (row : Tiles first (nodes.map Node.span) s.pos)
    (inner : ∀ node ∈ nodes, node.Nested source)
    (accepted : (close s nodes construct).scan.errors = []) :
    (close s nodes construct).Nested source := by
  have chars : ∀ c ∈ "else".toList, isIdentChar c = true :=
    List.all_eq_true.1 (by decide)
  cases held with
  | element leftOpen opener =>
    exact .closed
      (.element ⟨rfl, leftOpen⟩ ⟨first, opener, row⟩ (closer_closeTag here accepted) inner)
  | @arm start e earlier opener before =>
    have arms : ArmsHeld source s.pos (⟨start, e, nodes⟩ :: earlier) :=
      .cons ⟨first, opener, row⟩ inner before
    dsimp only [close] at accepted ⊢
    split at accepted
    · rename_i atElse
      rw [if_pos atElse]
      have next := opener_continuation here atElse chars
      split
      · exact .goesOn (.otherwise (List.cons_ne_nil _ _) next arms)
      · split
        · exact .goesOn (.arm next arms)
        · exact .goesOn (.otherwise (List.cons_ne_nil _ _) next arms)
    · rename_i noElse
      rw [if_neg noElse]
      exact nested_closeCondition here arms (List.cons_ne_nil _ _) .absent accepted
  | otherwise filled opener before =>
    exact nested_closeCondition here before filled (.otherwise ⟨first, opener, row⟩ inner) accepted
  | eachBody opener =>
    dsimp only [close] at accepted ⊢
    split at accepted
    · rename_i atElse
      rw [if_pos atElse]
      exact .goesOn
        (.eachFallback (opener_continuation here atElse chars) ⟨first, opener, row⟩ inner)
    · rename_i noElse
      rw [if_neg noElse]
      exact .closed
        (.each ⟨first, opener, row⟩ (closer_closeBlock here (by decide) accepted) inner)
  | eachFallback opener body before =>
    exact .closed (.eachElse body ⟨first, opener, row⟩ (closer_closeBlock here (by decide) accepted)
      before inner)
  | awaitPending opener =>
    exact nested_closeAwait here (.pending ⟨first, opener, row⟩)
      (fun nodes member => List.mem_singleton.1 member ▸ inner) accepted
  | awaitShort opener =>
    refine nested_closeAwait here (.short ⟨first, opener, row⟩)
      (forall_branches_put ?_ inner) accepted
    exact fun nodes member => List.mem_singleton.1 member ▸ nofun
  | awaitBranch opener before lacks earlier =>
    exact nested_closeAwait here (.branch before lacks ⟨first, opener, row⟩)
      (forall_branches_put earlier inner) accepted
  | key opener =>
    exact .closed (.key ⟨first, opener, row⟩ (closer_closeBlock here (by decide) accepted) inner)

end Reading

end TypedSvelte.Markup
