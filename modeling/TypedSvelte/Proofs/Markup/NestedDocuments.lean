import TypedSvelte.Proofs.Markup.Enclosure
import TypedSvelte.Proofs.Markup.RenderedNodes
import TypedSvelte.Proofs.Markup.Safety

/-!
# Accepted documents are well nested

As long as no error has been noted, the nodes that have been read are nested and each open construct
holds segments of the source (`StackNested`). A step keeps this, since it passes a closer only for
the innermost open construct, which owns it. Where that construct does not own the closer ahead, the
same step notes an error, and errors are never dropped.
-/
namespace TypedSvelte.Markup

open Scan Reading

variable {source : String} {s t : Scan} {r next : Reading}

namespace Reading

/-- What reading on does where nothing is closed: it adds a nested node, opens a construct, sets
something aside at the top, or notes an error. -/
inductive Builds (source : String) (r : Reading) : Reading → Prop
  | node {scan : Scan} {node : Node} (span : node.span = ⟨r.scan.pos, scan.pos⟩)
      (further : r.scan.pos ≤ scan.pos) (nested : node.Nested source) :
      Builds source r (r.add scan node)
  | construct {scan : Scan} {construct : Construct} (starts : construct.start = r.scan.pos)
      (held : construct.Held source scan.pos) : Builds source r (r.enter scan construct)
  | aside {next : Reading} (top : r.stack = []) (stack : next.stack = [])
      (nodes : next.nodes = r.nodes) : Builds source r next
  | error {next : Reading} (noted : next.scan.errors ≠ []) : Builds source r next

private theorem builds_readComment (r : Reading) : r.Builds source r.readComment := by
  unfold readComment
  dsimp only
  split
  · exact .node rfl ((r.scan.reaches_skip 4).skip _).pos_le .comment
  · exact .error (errors_fail_ne _ _ _)

private theorem builds_readMustache (r : Reading) : r.Builds source r.readMustache := by
  unfold readMustache
  dsimp only
  split
  · rename_i absent
    exact .error (errors_expression_ne absent)
  · split
    · exact .error (errors_fail_ne _ _ _)
    · exact .node rfl ((r.scan.reaches_skip 1).trans (reaches_expression _ _)).pos_le .mustache

private theorem builds_readTag (r : Reading) : r.Builds source r.readTag := by
  have onward := (r.scan.reaches_skip 2).trans (reaches_word _)
  unfold readTag
  dsimp only
  split
  · rename_i absent
    exact .error (errors_expression_ne absent)
  · exact .error (errors_fail_ne _ _ _)
  · exact .node rfl (onward.trans (reaches_expression _ _)).pos_le .tag

private theorem held_blockConstruct? {start first : Nat} {word : String} {header : Expression}
    {construct : Construct} (opener : Opener source ("\x7b#" ++ word) isIdentChar ⟨start, first⟩)
    (opens : blockConstruct? start word header = some construct) :
    construct.start = start ∧ construct.Held source first := by
  unfold blockConstruct? at opens
  split at opens
  · cases opens
    exact ⟨rfl, .arm opener .nil⟩
  · cases opens
    exact ⟨rfl, .eachBody opener⟩
  · dsimp only at opens
    split at opens
    · cases opens
      exact ⟨rfl, .awaitShort opener⟩
    · cases opens
      exact ⟨rfl, .awaitPending opener⟩
  · cases opens
    exact ⟨rfl, .key opener⟩
  · cases opens

private theorem builds_readBlock (here : (ofSource source).Reaches r.scan)
    (begins : r.scan.startsWith "\x7b#" = true) : r.Builds source r.readBlock := by
  have opener := opener_word here begins rfl
    (reaches_expression (r.scan.skip 2).word.2 r.scan.pos)
  unfold readBlock
  dsimp only
  split
  · rename_i absent
    exact .error (errors_expression_ne absent)
  · split
    · rename_i opens
      obtain ⟨starts, held⟩ := held_blockConstruct? opener opens
      exact .construct starts held
    · exact .error (errors_fail_ne _ _ _)

private theorem nodes_addScript (r : Reading) (script : Script) : (r.addScript script).nodes = r.nodes := by
  unfold addScript
  split
  · split <;> rfl
  · split <;> rfl

private theorem builds_readRaw {opened : Scan} {name : String} {attributes : List Attribute}
    (here : (ofSource source).Reaches opened) (isRaw : (name == "script" || name == "style") = true)
    (opener : Opener source ("<" ++ name) opensName ⟨r.scan.pos, opened.pos⟩)
    (further : r.scan.pos ≤ opened.pos) :
    r.Builds source ((r.moveTo opened).readRaw r.scan.pos name attributes) := by
  have known : name = "script" ∨ name = "style" := by simpa using isRaw
  have leftOpen : isVoid name = false := by rcases known with rfl | rfl <;> decide +kernel
  have free : '>' ∉ ("</" ++ name).toList := by rcases known with rfl | rfl <;> decide
  have stack := stack_readRaw (r.moveTo opened) r.scan.pos name attributes
  unfold readRaw at stack ⊢
  dsimp only at stack ⊢
  split
  · cases found : findText? ("</" ++ name).toList (r.moveTo opened).scan.rest with
    | none => exact .error (errors_fail_ne _ _ _)
    | some n =>
      obtain ⟨rest, ahead⟩ := findText?_spec found
      have toClosing : opened.Reaches (opened.skip n) := opened.reaches_skip n
      have toLast := reaches_skipPast (opened.skip n) '>'
      have any : EndsRun (closesName name) rest := by
        intro c _
        simp [closesName, isRaw]
      have closer := closer_skipPast (here.trans toClosing) ahead.symm any free
      refine .node rfl (Nat.le_trans further (toClosing.trans toLast).pos_le) ?_
      refine .element ⟨rfl, leftOpen⟩ ⟨opened.pos, opener, rfl, toClosing.pos_le, rfl⟩ closer ?_
      exact fun node member => List.mem_singleton.1 member ▸ .text
  · rename_i filled
    have top : r.stack = [] := by simpa [moveTo] using filled
    split
    · exact .aside top top rfl
    · refine .aside top ?_ (nodes_addScript _ _)
      rw [stack_addScript]
      exact top

/-- A tag opens with its mark and its name, which ends at the first character of another kind. -/
theorem opener_tag (here : (ofSource source).Reaches s) (isTag : s.atTag = true)
    (onward : ((s.skip 1).skip ((s.skip 1).count opensName)).Reaches t) :
    Opener source ("<" ++ String.ofList ((s.skip 1).rest.take ((s.skip 1).count opensName)))
      opensName ⟨s.pos, t.pos⟩ := by
  have mark : s.rest = '<' :: s.rest.drop 1 := by
    unfold atTag at isTag
    split at isTag
    · rename_i ahead
      rw [ahead]
      rfl
    · cases isTag
  have name : (s.skip 1).rest.take ((s.skip 1).count opensName) =
      (s.rest.drop 1).takeWhile opensName :=
    (List.prefix_iff_eq_take.1 (List.takeWhile_prefix _)).symm
  rw [name]
  have ends := endsRun_dropWhile opensName (s.rest.drop 1)
  refine opener_of_word here ?_ ends ?_
  · rw [String.toList_append, String.toList_ofList, String.toList_ofList, List.append_assoc,
      List.takeWhile_append_dropWhile]
    exact mark
  · rw [skip_skip] at onward
    rw [String.toList_append, String.toList_ofList, String.toList_ofList, List.length_append]
    exact onward

private theorem builds_readElement (here : (ofSource source).Reaches r.scan)
    (isTag : r.scan.atTag = true) : r.Builds source r.readElement := by
  have toTagEnd := reaches_attributes ((r.scan.skip 1).skip ((r.scan.skip 1).count opensName))
  have onward (name : String) := toTagEnd.trans (reaches_tagEnd _ name r.scan.pos)
  have toEnd (name : String) :=
    ((r.scan.reaches_skip 1).skip ((r.scan.skip 1).count opensName)).trans (onward name)
  have opener (name : String) := opener_tag here isTag (onward name)
  unfold readElement
  dsimp only
  split
  · rename_i raw
    rw [Bool.and_eq_true] at raw
    exact builds_readRaw (here.trans (toEnd _)) raw.2 (opener _) (toEnd _).pos_le
  · split
    · rename_i closed
      exact .node rfl (toEnd _).pos_le (.leaf (Bool.or_eq_true_iff.1 closed))
    · rename_i leftOpen
      rw [Bool.not_eq_true, Bool.or_eq_false_iff] at leftOpen
      exact .construct rfl (.element leftOpen.2 (opener _))

private theorem builds_open (here : (ofSource source).Reaches r.scan) : r.Builds source r.open_ := by
  unfold open_
  split
  · exact builds_readComment r
  split
  · rename_i isTag
    exact builds_readElement here isTag
  split
  · rename_i begins
    exact builds_readBlock here begins
  split
  · exact builds_readTag r
  split
  · exact builds_readMustache r
  · exact .node rfl (r.scan.reaches_skip _).pos_le .text

private theorem errors_strayCloser_ne (r : Reading) : r.strayCloser.scan.errors ≠ [] := by
  unfold strayCloser
  dsimp only
  split
  · exact errors_fail_ne _ _ _
  · split
    · exact errors_fail_ne _ _ _
    · exact errors_fail_ne _ _ _

end Reading

/-- The nodes that have been read are nested, and so is what the open constructs hold. -/
inductive StackNested (source : String) : Nat → List Node → List Frame → Prop
  | top {stop : Nat} {nodes : List Node} (inner : ∀ node ∈ nodes, node.Nested source) :
      StackNested source stop nodes []
  | frame {stop first : Nat} {nodes : List Node} {frame : Frame} {outer : List Frame}
      (held : frame.construct.Held source first)
      (row : Tiles first (nodes.reverse.map Node.span) stop)
      (inner : ∀ node ∈ nodes, node.Nested source)
      (around : StackNested source frame.construct.start frame.before outer) :
      StackNested source stop nodes (frame :: outer)

theorem StackNested.add {stop later : Nat} {nodes : List Node} {stack : List Frame} {node : Node}
    (nested : StackNested source stop nodes stack) (span : node.span = ⟨stop, later⟩)
    (further : stop ≤ later) (new : node.Nested source) :
    StackNested source later (node :: nodes) stack := by
  cases nested with
  | top inner => exact .top (List.forall_mem_cons.2 ⟨new, inner⟩)
  | @frame _ first _ _ _ held row inner around =>
    have more := row.snoc (s := ⟨stop, later⟩) rfl further
    have whole : Tiles first ((node :: nodes).reverse.map Node.span) later := by
      rw [List.reverse_cons, List.map_append, List.map_singleton, span]
      exact more
    exact .frame held whole (List.forall_mem_cons.2 ⟨new, inner⟩) around

namespace Reading

private theorem nested_builds (nested : StackNested source r.scan.pos r.nodes r.stack)
    (builds : r.Builds source next) (accepted : next.scan.errors = []) :
    StackNested source next.scan.pos next.nodes next.stack := by
  cases builds with
  | node span further new => exact nested.add span further new
  | construct starts held => exact .frame held rfl nofun (starts ▸ nested)
  | aside top stack nodes =>
    rw [top] at nested
    rw [stack, nodes]
    cases nested with
    | top inner => exact .top inner
  | error noted => exact absurd accepted noted

theorem Placed.began {frame : Frame} {outer : List Frame} (placed : r.Placed source)
    (top : r.stack = frame :: outer) : frame.construct.start ≤ r.scan.pos := by
  have stack := placed.stack
  rw [top] at stack
  cases stack with
  | frame construct _ _ => exact construct.began.1.ordered

private theorem nested_leave {frame : Frame} {outer : List Frame} (placed : r.Placed source)
    (nested : StackNested source r.scan.pos r.nodes r.stack) (top : r.stack = frame :: outer)
    (accepted : (r.leave frame outer).scan.errors = []) :
    StackNested source (r.leave frame outer).scan.pos (r.leave frame outer).nodes
      (r.leave frame outer).stack := by
  rw [top] at nested
  rw [scan_leave] at accepted
  cases nested with
  | frame held row inner around =>
    have closing := placed.closing top
    have became := nested_close placed.here held row
      (fun node member => inner node (List.mem_reverse.1 member)) accepted
    have ordered :
        frame.construct.start ≤ (close r.scan r.nodes.reverse frame.construct).scan.pos :=
      Nat.le_trans (placed.began top) (reaches_close _ _ _).pos_le
    unfold Reading.leave
    generalize close r.scan r.nodes.reverse frame.construct = result at closing became ordered ⊢
    cases closing with
    | goesOn same _ =>
      cases became with
      | goesOn held => exact .frame held rfl nofun (same ▸ around)
    | closed span _ =>
      cases became with
      | closed new => exact around.add span ordered new

/-- While no error is noted, what has been read stays nested with every step. -/
theorem nested_step (placed : r.Placed source)
    (nested : StackNested source r.scan.pos r.nodes r.stack) (stepped : r.step = some next)
    (accepted : next.scan.errors = []) :
    StackNested source next.scan.pos next.nodes next.stack := by
  unfold step at stepped
  split at stepped
  · split at stepped
    · rename_i top
      cases stepped
      exact nested_leave placed nested top accepted
    · split at stepped
      · cases stepped
      · cases stepped
        exact absurd accepted (errors_strayCloser_ne r)
  · cases stepped
    exact nested_builds nested (builds_open placed.here) accepted

private theorem nested_finish (placed : r.Placed source)
    (nested : StackNested source r.scan.pos r.nodes r.stack)
    (accepted : r.finish.scan.errors = []) :
    StackNested source r.finish.scan.pos r.finish.nodes r.finish.stack := by
  fun_induction Reading.finish r with
  | case1 r ended => exact nested
  | case2 r next stepped shorter ih =>
    have further := placed.step stepped
    have kept := further.leads_finish.kept
    rw [accepted] at kept
    exact ih further (nested_step placed nested stepped (List.suffix_nil.1 kept)) accepted

end Reading

/-- The words of the continuations that the construct takes. -/
def Construct.continuations : Construct → List String
  | .arm _ _ _ | .eachBody _ _ => ["else"]
  | .awaitPending _ _ => ["then", "catch"]
  | .awaitBranch done branch _ =>
    ([.then_, .catch_].filter fun other => other ≠ branch && done.lacks other).map AwaitBranch.word
  | .element _ _ _ | .otherwise _ | .eachFallback _ _ _ | .key _ _ => []

/-- The word of the block, which an element does not have. -/
def Construct.block : Construct → String
  | .arm _ _ _ | .otherwise _ => "if"
  | .eachBody _ _ | .eachFallback _ _ _ => "each"
  | .awaitPending _ _ | .awaitBranch _ _ _ => "await"
  | .key _ _ => "key"
  | .element _ _ _ => ""

/-- What is ahead belongs to the construct: the closing tag of an element of that name, a
continuation that the block takes, or the end of the block. -/
def Construct.Owns (s : Scan) : Construct → Prop
  | .element _ name _ =>
    s.startsWith "</" = true ∧
      (s.rest.drop 2).takeWhile (fun c => !(isBlank c || c == '>')) = name.toList
  | construct =>
    (∃ word ∈ construct.continuations, s.atWord "\x7b:" word = true) ∨
      s.atWord "\x7b/" construct.block = true

namespace Reading

variable {nodes : List Node} {start : Nat}

private theorem errors_closeBlock_ne {block : String} (other : ¬s.atWord "\x7b/" block = true) :
    (closeBlock s block start).errors ≠ [] := by
  rw [closeBlock, if_neg other]
  exact errors_fail_ne _ _ _

private theorem errors_closeTag_ne {name : String}
    (other : ¬(s.startsWith "</" = true ∧
      (s.rest.drop 2).takeWhile (fun c => !(isBlank c || c == '>')) = name.toList)) :
    (closeTag s name start).errors ≠ [] := by
  unfold closeTag
  dsimp only
  split
  · rename_i begins
    split
    · rename_i same
      have chars := congrArg String.toList (eq_of_beq same)
      rw [String.toList_ofList] at chars
      exact absurd ⟨begins, chars⟩ other
    · exact errors_fail_ne _ _ _
  · exact errors_fail_ne _ _ _

private theorem errors_closeAwait_ne {a : Awaiting}
    (noBranch : ∀ branch : AwaitBranch, a.lacks branch = true →
      ¬s.atWord "\x7b:" branch.word = true)
    (noEnd : ¬s.atWord "\x7b/" "await" = true) : (closeAwait s a).scan.errors ≠ [] := by
  unfold closeAwait
  cases next : nextBranch? s a with
  | some branch =>
    have found := List.find?_some next
    rw [Bool.and_eq_true] at found
    exact absurd found.1 (noBranch branch found.2)
  | none => exact errors_closeBlock_ne noEnd

private theorem lacks_put (a : Awaiting) (branch other : AwaitBranch) (binding : Option Expression)
    (nodes : List Node) :
    (a.put branch binding nodes).lacks other = (decide (other ≠ branch) && a.lacks other) := by
  cases branch <;> cases other <;> rfl

/-- A construct that does not own what is ahead ends with an error. -/
theorem errors_close_ne {construct : Construct} (alien : ¬construct.Owns s) :
    (close s nodes construct).scan.errors ≠ [] := by
  cases construct with
  | element start name attributes => exact errors_closeTag_ne alien
  | arm start e earlier =>
    obtain ⟨noElse, noEnd⟩ := not_or.1 alien
    dsimp only [close]
    rw [if_neg fun atElse => noElse ⟨_, .head _, atElse⟩]
    exact errors_closeBlock_ne noEnd
  | otherwise arms => exact errors_closeBlock_ne (not_or.1 alien).2
  | eachBody start header =>
    obtain ⟨noElse, noEnd⟩ := not_or.1 alien
    dsimp only [close]
    rw [if_neg fun atElse => noElse ⟨_, .head _, atElse⟩]
    exact errors_closeBlock_ne noEnd
  | eachFallback start header body => exact errors_closeBlock_ne (not_or.1 alien).2
  | awaitPending start e =>
    obtain ⟨noBranch, noEnd⟩ := not_or.1 alien
    refine errors_closeAwait_ne (fun branch _ atBranch => noBranch ⟨_, ?_, atBranch⟩) noEnd
    cases branch with
    | then_ => exact .head _
    | catch_ => exact .tail _ (.head _)
  | awaitBranch done branch binding =>
    obtain ⟨noBranch, noEnd⟩ := not_or.1 alien
    refine errors_closeAwait_ne (fun other lacks atOther => noBranch ⟨_, ?_, atOther⟩) noEnd
    rw [lacks_put] at lacks
    refine List.mem_map_of_mem (List.mem_filter.2 ⟨?_, lacks⟩)
    cases other with
    | then_ => exact .head _
    | catch_ => exact .tail _ (.head _)
  | key start e => exact errors_closeBlock_ne (not_or.1 alien).2

/-- The step at a closer that the innermost open construct does not own notes an error. -/
theorem errors_step_ne (atCloser : r.scan.atCloser = true)
    (alien : ∀ frame ∈ r.stack.head?, ¬frame.construct.Owns r.scan) (stepped : r.step = some next) :
    next.scan.errors ≠ [] := by
  unfold step at stepped
  rw [if_pos (by rw [atCloser, Bool.or_true])] at stepped
  split at stepped
  · rename_i frame outer top
    cases stepped
    rw [scan_leave]
    rw [top] at alien
    exact errors_close_ne (alien frame rfl)
  · split at stepped
    · cases stepped
    · cases stepped
      exact errors_strayCloser_ne r

/-- At a closer the pass goes on. -/
theorem exists_step (atCloser : r.scan.atCloser = true) : ∃ next, r.step = some next := by
  cases stepped : r.step with
  | some next => exact ⟨next, rfl⟩
  | none =>
    have nothing := (ended_of_step stepped).1
    rw [Scan.atCloser, nothing] at atCloser
    cases atCloser

theorem Reached.finish_eq {n : Nat} (reached : Reached source n r) :
    (Reading.start source).finish = r.finish := by
  induction reached with
  | start => rfl
  | step _ stepped ih => exact ih.trans (finish_of_step stepped)

end Reading

theorem nested_of_accepted (accepted : (parse source).errors = []) :
    ∀ node ∈ (parse source).document.fragment, node.Nested source := by
  intro node member
  have nested := nested_finish (placed_start source) (.top nofun)
    (List.reverse_eq_nil_iff.1 accepted)
  rw [(ended_of_step (step_finish _)).2] at nested
  cases nested with
  | top inner => exact inner node (List.mem_reverse.1 member)

/-- Where the pass comes by a closer that the innermost open construct does not own, the source has
an error. -/
theorem errors_ne_of_alien {n : Nat} (reached : Reached source n r)
    (atCloser : r.scan.atCloser = true)
    (alien : ∀ frame ∈ r.stack.head?, ¬frame.construct.Owns r.scan) :
    (parse source).errors ≠ [] := by
  intro accepted
  obtain ⟨next, stepped⟩ := exists_step atCloser
  have kept := (reached.placed.step stepped).leads_finish.kept
  rw [← (Reached.step reached stepped).finish_eq, List.reverse_eq_nil_iff.1 accepted] at kept
  exact errors_step_ne atCloser alien stepped (List.suffix_nil.1 kept)

/-- In a source without errors every element that neither closes itself nor is void, and every
block, begins with its own opener and ends with its own closer, and the nodes of each of its
branches stand side by side in between. Conversely, where the pass comes by a closing tag or by an
end or a continuation of a block that the innermost open construct does not own, as when nothing is
open, the source has an error. -/
theorem document_nested (source : String) :
    ((parse source).errors = [] →
      ∀ node ∈ (parse source).document.fragment, node.Nested source) ∧
      ∀ n r, Reached source n r → r.scan.atCloser = true →
        (∀ frame ∈ r.stack.head?, ¬frame.construct.Owns r.scan) → (parse source).errors ≠ [] :=
  ⟨nested_of_accepted, fun _ _ reached => errors_ne_of_alien reached⟩

/-- An element with two blocks in it, and a closing tag that belongs to nothing. -/
theorem document_nested_list :
    (let source := "<ul>\x7b#each xs as x\x7d\x7b#if x\x7da\x7b:else\x7db\x7b/if\x7d\x7b/each\x7d</ul>"
      ∀ node ∈ (parse source).document.fragment, node.Nested source) ∧
      (parse "</p>").errors ≠ [] :=
  ⟨(document_nested _).1 (by decide +kernel), (document_nested "</p>").2 0 _ .start rfl nofun⟩

end TypedSvelte.Markup
