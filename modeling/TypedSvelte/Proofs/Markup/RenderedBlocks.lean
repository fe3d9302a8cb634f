import TypedSvelte.Proofs.Markup.RenderedNodes

/-!
# Rendered blocks

A block is entered by its header and leaves a node at its end. What stands between the nodes of its
first branch and its end is taken by the innermost block it belongs to: each of `{:else}`,
`{:else if}`, `{:then}` and `{:catch}` makes the construct go on as another one, and the end closes
it. `Reading.EndsCondition`, `Reading.EndsEach` and `Reading.PutsBranch` say this for the
continuations of each kind of block.
-/
namespace TypedSvelte.Markup

open Scan

namespace Reading

variable {r : Reading} {rest text first second : List Char} {nodes before : List Node} {node : Node}
variable {outer : List Frame}

theorem step_block {cs : List Char} (ahead : r.scan.rest = '{' :: '#' :: cs) :
    r.step = some r.readBlock := by
  have opens : r.scan.atCloser = false := by
    unfold atCloser
    rw [ahead]
    rfl
  rw [step_open ahead opens]
  unfold open_
  simp [startsWith, atTag, ahead]

variable {word : String} {header behind block : List Char} {e : Ident}

/-- The opening of a block opens the construct of its word and its header. -/
theorem enters_block (isWord : isWord word.toList = true)
    (plain : ∀ d ∈ header, isHeaderChar d = true) (trimmed : Trimmed header) (filled : header ≠ [])
    (ahead : r.scan.rest = '{' :: '#' :: (word.toList ++ ' ' :: (header ++ '}' :: rest))) :
    ∃ scan e, e.text = String.ofList header ∧ r.scan.Lands scan rest ∧
      ∀ construct, blockConstruct? r.scan.pos word e = some construct →
        r.step = some (r.enter scan construct) := by
  obtain ⟨_, _, _, _, chars⟩ := isWord_iff.1 isWord
  have ends : EndsWord (' ' :: (header ++ '}' :: rest)) := endsRun_cons rfl
  have mark : r.scan.Lands (r.scan.skip 2) (word.toList ++ ' ' :: (header ++ '}' :: rest)) :=
    @lands_skip _ ['{', '#'] _ 2 ahead rfl
  obtain ⟨found, behind⟩ := lands_word chars mark.ahead ends
  have plainHeader : ∀ d ∈ ' ' :: header, isHeaderChar d = true :=
    List.forall_mem_cons.2 ⟨by decide, plain⟩
  obtain ⟨read, ended⟩ := @lands_expression _ _ _ r.scan.pos plainHeader behind.ahead
  refine ⟨_, Expression.ofText (r.scan.skip 2).word.2.pos (' ' :: header),
    congrArg String.ofList (trim_header trimmed filled), (mark.trans behind).trans ended,
    fun construct known => ?_⟩
  have stepped := step_block ahead
  unfold readBlock at stepped
  dsimp only at stepped
  rw [read, found, String.ofList_toList] at stepped
  dsimp only at stepped
  rw [known] at stepped
  exact stepped

private theorem bare_of_text {read : Expression} (text : read.text = String.ofList e.val) :
    read.bare = Ident.expression e := by
  rw [Expression.bare, text]
  rfl

private theorem atCloser_end {s : Scan} (ahead : s.rest = '{' :: '/' :: rest) : s.atCloser = true := by
  unfold atCloser
  rw [ahead]
  rfl

private theorem atCloser_continuation {s : Scan} (ahead : s.rest = '{' :: ':' :: rest) :
    s.atCloser = true := by
  unfold atCloser
  rw [ahead]
  rfl

/-- A block is read if, whatever its header was read as, the construct that it opens is closed
after the nodes of its first branch. -/
theorem reads_block (isWord : isWord word.toList = true)
    (plain : ∀ d ∈ header, isHeaderChar d = true) (trimmed : Trimmed header) (filled : header ≠ [])
    (rendered : block = '{' :: '#' :: (word.toList ++ ' ' :: (header ++ '}' :: (text ++ behind))))
    (children : Reads text nodes (behind ++ rest))
    (closes : ∀ (read : Expression) (start : Nat), read.text = String.ofList header →
      ∃ construct, blockConstruct? start word read = some construct ∧
        ∀ (last : Reading) (before : List Node) (outer : List Frame),
          last.scan.rest = behind ++ rest → last.stack = ⟨construct, before⟩ :: outer →
          bareNodes last.nodes.reverse = nodes →
          last.Arrives rest outer (node :: before.map Node.bare)) :
    Reads block [node] rest := by
  refine reads_of_enter fun r ahead => ?_
  have whole : r.scan.rest = '{' :: '#' :: (word.toList ++ ' ' :: (header ++ '}' ::
      (text ++ (behind ++ rest)))) := by
    rw [ahead, rendered]
    simp
  obtain ⟨scan, read, written, lands, stepped⟩ := enters_block isWord plain trimmed filled whole
  obtain ⟨construct, known, arrives⟩ := closes read r.scan.pos written
  refine ⟨scan, construct, _, stepped construct known, lands, ?_⟩
  obtain ⟨last, goesOn, atEnd, stack, bareNodes⟩ :=
    children.children (r.enter scan construct) lands.ahead rfl
  exact goesOn.arrives (arrives last _ _ atEnd stack bareNodes)

theorem reads_key (children : Reads text nodes ("\x7b/key\x7d".toList ++ rest)) :
    Reads ("\x7b#key ".toList ++ e.val ++ '}' :: text ++ "\x7b/key\x7d".toList)
      [.key default (Ident.expression e) nodes] rest := by
  refine reads_block (show isWord "key".toList = true by decide) (isHeaderChar_ident (e := e))
    (trimmed_of_isWord e.isWord) e.ne_nil (by simp) children
    fun read start bare => ⟨_, rfl, fun last before outer atEnd stack bareNodes => ?_⟩
  have closed := arrives_closed (atCloser_end atEnd) stack rfl
    (@lands_closeBlock _ _ _ "key" (by decide) atEnd)
  rwa [Node.bare, bareNodes, bare_of_text bare] at closed

private theorem bare_conditionNode {stop close : Nat} {alternate : Alternate} {arms : List Arm} :
    (conditionNode stop close alternate arms).bare =
      conditionNode 0 0 alternate.bare (arms.map Arm.bare) := by
  induction arms generalizing alternate with
  | nil => rfl
  | cons arm outer ih =>
    cases outer with
    | nil => rfl
    | cons next outer => exact @ih (.elseIf ⟨arm.start, stop⟩ arm.condition arm.consequent alternate)

/-- After the consequent of a condition, the text ends the condition with the alternate. -/
def EndsCondition (text : List Char) (alternate : Alternate) : Prop :=
  ∀ (r : Reading) (start : Nat) (condition : Expression) (earlier : List Arm) (before : List Node)
    (outer : List Frame) (rest : List Char), r.scan.rest = text ++ ("\x7b/if\x7d".toList ++ rest) →
    r.stack = ⟨.arm start condition earlier, before⟩ :: outer →
    r.Arrives rest outer (conditionNode 0 0 alternate
      ((⟨start, condition, r.nodes.reverse⟩ :: earlier).map Arm.bare) :: before.map Node.bare)

variable {alternate : Alternate}

theorem endsCondition_absent : EndsCondition [] .absent := by
  intro r start condition earlier before outer rest ahead stack
  have noElse : r.scan.atWord "\x7b:" "else" = false := atWord_of_end ahead
  have closes : close r.scan r.nodes.reverse (.arm start condition earlier) =
      closeCondition r.scan (⟨start, condition, r.nodes.reverse⟩ :: earlier) .absent := by
    unfold close
    dsimp only
    rw [if_neg (by simp [noElse])]
  have closed := arrives_closed (atCloser_end ahead) stack closes
    (@lands_closeBlock _ _ _ "if" (by decide) ahead)
  rwa [bare_conditionNode] at closed

theorem endsCondition_otherwise (children : ∀ rest, EndsText rest → Reads text nodes rest) :
    EndsCondition ("\x7b:else\x7d".toList ++ text) (.otherwise nodes) := by
  intro r start condition earlier before outer rest ahead stack
  rw [List.append_assoc] at ahead
  obtain ⟨atElse, nothing, lands⟩ := lands_else ahead
  have goesOn : close r.scan r.nodes.reverse (.arm start condition earlier) =
      .goesOn (continuation r.scan).2
        (.otherwise (⟨start, condition, r.nodes.reverse⟩ :: earlier)) := by
    unfold close
    dsimp only
    rw [if_pos atElse, nothing]
  obtain ⟨last, reaches, atEnd, lastStack, bareNodes⟩ := goesOn_children
    (atCloser_continuation ahead) stack goesOn lands (children _ endsText_brace)
  have closed := arrives_closed (atCloser_end atEnd) lastStack rfl
    (@lands_closeBlock _ _ _ "if" (by decide) atEnd)
  rw [bare_conditionNode, Alternate.bare, bareNodes] at closed
  exact reaches.arrives closed

theorem endsCondition_elseIf (children : ∀ rest, EndsText rest → Reads text nodes rest)
    {more : List Char} (moreEnds : ∀ rest, EndsText (more ++ '{' :: rest))
    (goesOn : EndsCondition more alternate) :
    EndsCondition ("\x7b:else if ".toList ++ e.val ++ '}' :: text ++ more)
      (.elseIf default (Ident.expression e) nodes alternate) := by
  intro r start condition earlier before outer rest ahead stack
  have whole : r.scan.rest = "\x7b:".toList ++ "else".toList ++ ([' '] ++ ("if ".toList ++ e.val) ++
      '}' :: (text ++ (more ++ ("\x7b/if\x7d".toList ++ rest)))) := by
    rw [ahead]
    simp
  have atElse : r.scan.atWord "\x7b:" "else" = true :=
    atWord_of_word whole (endsRun_cons rfl)
  have plain : ∀ d ∈ [' '] ++ ("if ".toList ++ e.val), isHeaderChar d = true :=
    List.forall_mem_cons.2 ⟨by decide, isHeaderChar_elseIf⟩
  obtain ⟨⟨offset, read⟩, lands⟩ := @lands_continuation _ _ "else" _ (by decide) plain
    (endsRun_cons rfl) whole
  have header : (Expression.ofText offset ([' '] ++ ("if ".toList ++ e.val))).text =
      String.ofList ("if ".toList ++ e.val) :=
    congrArg String.ofList (trim_header trimmed_elseIf (List.cons_ne_nil _ _))
  -- from here on only the text of the header matters, not its place
  generalize Expression.ofText offset ([' '] ++ ("if ".toList ++ e.val)) = found at read header
  have filled : found.isEmpty = false := by
    simp [Expression.isEmpty, header]
  rw [Option.filter_some, filled, Bool.not_false, if_pos rfl] at read
  obtain ⟨next, known, bareNext⟩ := Option.map_eq_some_iff.1 (bare_elseIf header)
  have continued : close r.scan r.nodes.reverse (.arm start condition earlier) =
      .goesOn (continuation r.scan).2
        (.arm r.scan.pos next (⟨start, condition, r.nodes.reverse⟩ :: earlier)) := by
    unfold close
    dsimp only
    rw [if_pos atElse, read]
    dsimp only
    rw [known]
  obtain ⟨last, reaches, atEnd, lastStack, bareNodes⟩ := goesOn_children
    (atCloser_continuation whole) stack continued lands (children _ (moreEnds _))
  have closed := goesOn last _ _ _ _ _ _ atEnd lastStack
  rw [List.map_cons, Arm.bare, bareNodes, bareNext] at closed
  exact reaches.arrives closed

theorem reads_if (children : Reads text nodes (first ++ ("\x7b/if\x7d".toList ++ rest)))
    (ends : EndsCondition first alternate) :
    Reads ("\x7b#if ".toList ++ e.val ++ '}' :: text ++ first ++ "\x7b/if\x7d".toList)
      [.ifBlock default (Ident.expression e) nodes alternate] rest := by
  rw [← List.append_assoc] at children
  refine reads_block (show isWord "if".toList = true by decide) (isHeaderChar_ident (e := e))
    (trimmed_of_isWord e.isWord) e.ne_nil (by simp) children
    fun read start bare => ⟨_, rfl, fun last before outer atEnd stack bareNodes => ?_⟩
  rw [List.append_assoc] at atEnd
  have closed := ends last _ _ _ _ _ _ atEnd stack
  simp only [List.map_cons, List.map_nil, conditionNode, Arm.bare] at closed
  rwa [bareNodes, bare_of_text bare] at closed

/-- After the body of an `{#each}` block, the text ends the block with the fallback. -/
def EndsEach (text : List Char) (fallback : Option (List Node)) : Prop :=
  ∀ (r : Reading) (start : Nat) (header : EachHeader) (before : List Node) (outer : List Frame)
    (rest : List Char), r.scan.rest = text ++ ("\x7b/each\x7d".toList ++ rest) →
    r.stack = ⟨.eachBody start header, before⟩ :: outer →
    r.Arrives rest outer (.each (EachHead.bare ⟨default, header.expression, header.context,
      header.index, header.key⟩) (bareNodes r.nodes.reverse) fallback :: before.map Node.bare)

theorem endsEach_absent : EndsEach [] none := by
  intro r start header before outer rest ahead stack
  have noElse : r.scan.atWord "\x7b:" "else" = false := atWord_of_end ahead
  have lands := @lands_closeBlock r.scan rest start "each" (by decide) ahead
  have closes : close r.scan r.nodes.reverse (.eachBody start header) =
      .closed (closeBlock r.scan "each" start) (.each ⟨⟨start,
        (closeBlock r.scan "each" start).pos⟩, header.expression, header.context, header.index,
        header.key⟩ r.nodes.reverse none) := by
    unfold close
    dsimp only
    rw [if_neg (by simp [noElse])]
  exact arrives_closed (atCloser_end ahead) stack closes lands

theorem endsEach_present (children : ∀ rest, EndsText rest → Reads text nodes rest) :
    EndsEach ("\x7b:else\x7d".toList ++ text) (some nodes) := by
  intro r start header before outer rest ahead stack
  rw [List.append_assoc] at ahead
  obtain ⟨atElse, _, lands⟩ := lands_else ahead
  have goesOn : close r.scan r.nodes.reverse (.eachBody start header) =
      .goesOn (continuation r.scan).2 (.eachFallback start header r.nodes.reverse) := by
    unfold close
    dsimp only
    rw [if_pos atElse]
  obtain ⟨last, reaches, atEnd, lastStack, fallback⟩ := goesOn_children
    (atCloser_continuation ahead) stack goesOn lands (children _ endsText_brace)
  have closed := arrives_closed (atCloser_end atEnd) lastStack rfl
    (@lands_closeBlock _ _ _ "each" (by decide) atEnd)
  rw [Node.bare, bareBranch, fallback] at closed
  exact reaches.arrives closed

variable {items context : Ident} {index key : Option Ident} {fallback : Option (List Node)}

theorem reads_each (children : Reads text nodes (first ++ ("\x7b/each\x7d".toList ++ rest)))
    (ends : EndsEach first fallback) :
    Reads ("\x7b#each ".toList ++ renderEachHeader items context index key ++ '}' :: text ++ first ++
        "\x7b/each\x7d".toList)
      [.each ⟨default, Ident.expression items, some (Ident.expression context),
        index.map Ident.expression, key.map Ident.expression⟩ nodes fallback] rest := by
  have filled : renderEachHeader items context index key ≠ [] := by
    simp [renderEachHeader, items.ne_nil]
  rw [← List.append_assoc] at children
  refine reads_block (show isWord "each".toList = true by decide) isHeaderChar_eachHeader
    trimmed_eachHeader filled (by simp) children
    fun read start written => ⟨_, rfl, fun last before outer atEnd stack bareNodes => ?_⟩
  rw [List.append_assoc] at atEnd
  obtain ⟨bareItems, bareContext, bareIndex, bareKey⟩ := bare_eachHeader written
  have closed := ends last _ _ _ _ _ atEnd stack
  rwa [bareNodes, EachHead.bare, bareItems, bareContext, bareIndex, bareKey] at closed

private theorem bare_awaitingNode {a : Awaiting} {stop : Nat} : (a.node stop).bare = a.bare.node 0 := by
  obtain ⟨start, expression, pending, onThen, onCatch⟩ := a
  cases onThen with
  | none =>
    cases onCatch with
    | none => rfl
    | some => rfl
  | some =>
    cases onCatch with
    | none => rfl
    | some => rfl

private theorem lacks_bare {a : Awaiting} {branch : AwaitBranch} : a.bare.lacks branch = a.lacks branch := by
  cases branch with
  | then_ => exact Option.isNone_map
  | catch_ => exact Option.isNone_map

private theorem bare_put {a : Awaiting} {branch : AwaitBranch} {binding : Option Expression} :
    (a.put branch binding nodes).bare =
      a.bare.put branch (binding.map Expression.bare) (bareNodes nodes) := by
  cases branch with
  | then_ => rfl
  | catch_ => rfl

/-- The innermost open construct is an `{#await}` block, which is `a` up to spans with the nodes
read so far. -/
def Awaits (r : Reading) (a : Awaiting) (before : List Node) (outer : List Frame) : Prop :=
  ∃ construct done, r.stack = ⟨construct, before⟩ :: outer ∧
    close r.scan r.nodes.reverse construct = closeAwait r.scan done ∧ done.bare = a

variable {a : Awaiting} {branch : AwaitBranch} {binding : Option Ident}

theorem Awaits.ends (awaits : r.Awaits a before outer)
    (ahead : r.scan.rest = "\x7b/await\x7d".toList ++ rest) :
    r.Arrives rest outer (a.node 0 :: before.map Node.bare) := by
  obtain ⟨construct, done, stack, closes, rfl⟩ := awaits
  have ended : closeAwait r.scan done = .closed (closeBlock r.scan "await" done.start)
      (done.node (closeBlock r.scan "await" done.start).pos) := by
    unfold closeAwait
    rw [nextBranch?_of_end ahead]
  have closed := arrives_closed (atCloser_end ahead) stack (closes.trans ended)
    (@lands_closeBlock _ _ _ "await" (by decide) ahead)
  rwa [bare_awaitingNode] at closed

theorem Awaits.goesOn (awaits : r.Awaits a before outer) (lacks : a.lacks branch = true)
    (children : Reads text nodes rest)
    (ahead : r.scan.rest = "\x7b:".toList ++ branch.word.toList ++ renderOptional " " binding "" ++
      '}' :: text ++ rest) :
    ∃ last, r.Continues last ∧ last.scan.rest = rest ∧
      last.Awaits (a.put branch (binding.map Ident.expression) nodes) before outer := by
  obtain ⟨construct, done, stack, closes, rfl⟩ := awaits
  have whole : r.scan.rest = "\x7b:".toList ++ branch.word.toList ++
      (renderOptional " " binding "" ++ '}' :: (text ++ rest)) := by
    rw [ahead]
    simp
  have isWord : isWord branch.word.toList = true := by
    cases branch with
    | then_ => decide
    | catch_ => decide
  obtain ⟨bare, lands⟩ := bare_continuation isWord whole
  have goesOn : closeAwait r.scan done = .goesOn (continuation r.scan).2
      (.awaitBranch done branch (continuation r.scan).1) := by
    unfold closeAwait
    rw [nextBranch?_of_word (lacks_bare.symm.trans lacks) endsWord_binding whole]
  obtain ⟨last, reaches, atEnd, lastStack, bareNodes⟩ := goesOn_children
    (atCloser_continuation whole) stack (closes.trans goesOn) lands children
  refine ⟨last, reaches, atEnd, _, _, lastStack, rfl, ?_⟩
  rw [bare_put, bare, bareNodes]

/-- The text puts a branch into an `{#await}` block that lacks it. -/
def PutsBranch (text : List Char) (branch : AwaitBranch) (put : Awaiting → Awaiting) : Prop :=
  ∀ (r : Reading) (a : Awaiting) (before : List Node) (outer : List Frame) (rest : List Char),
    r.scan.rest = text ++ rest → EndsText rest → a.lacks branch = true → r.Awaits a before outer →
    ∃ last, r.Continues last ∧ last.scan.rest = rest ∧ last.Awaits (put a) before outer

theorem putsBranch_absent : PutsBranch [] branch id :=
  fun r _ _ _ _ ahead _ _ awaits => ⟨r, .refl r, ahead, awaits⟩

theorem putsBranch_present (children : ∀ rest, EndsText rest → Reads text nodes rest) :
    PutsBranch ("\x7b:".toList ++ branch.word.toList ++ renderOptional " " binding "" ++ '}' :: text)
      branch (fun a => a.put branch (binding.map Ident.expression) nodes) := by
  intro r a before outer rest ahead ends lacks awaits
  refine awaits.goesOn lacks (children rest ends) ?_
  rw [ahead]

variable {putThen putCatch : Awaiting → Awaiting}

theorem reads_await
    (children : Reads text nodes (first ++ (second ++ ("\x7b/await\x7d".toList ++ rest))))
    (onThen : PutsBranch first .then_ putThen) (onCatch : PutsBranch second .catch_ putCatch)
    (ends : EndsText (second ++ ("\x7b/await\x7d".toList ++ rest)))
    (lacks : ∀ a, (putThen a).lacks .catch_ = a.lacks .catch_) :
    Reads ("\x7b#await ".toList ++ e.val ++ '}' :: text ++ first ++ second ++
        "\x7b/await\x7d".toList)
      [(putCatch (putThen ⟨0, Ident.expression e, nodes, none, none⟩)).node 0] rest := by
  rw [← List.append_assoc second, ← List.append_assoc first] at children
  refine reads_block (show isWord "await".toList = true by decide) (isHeaderChar_ident (e := e))
    (trimmed_of_isWord e.isWord) e.ne_nil (by simp) children fun read start bare => ?_
  have known : blockConstruct? start "await" read = some (.awaitPending start read) := by
    unfold blockConstruct?
    dsimp only
    rw [awaitHeader_ident bare]
    rfl
  refine ⟨_, known, fun pending before outer atThen stack bareNodes => ?_⟩
  rw [List.append_assoc, List.append_assoc] at atThen
  have awaits : pending.Awaits ⟨0, Ident.expression e, nodes, none, none⟩ before outer := by
    refine ⟨_, ⟨start, read, pending.nodes.reverse, none, none⟩, stack, rfl, ?_⟩
    rw [Awaiting.bare, bareNodes, bare_of_text bare]
    rfl
  obtain ⟨thenRead, reachesThen, atCatch, awaitsThen⟩ :=
    onThen _ _ _ _ _ atThen ends rfl awaits
  obtain ⟨catchRead, reachesCatch, atEnd, awaitsCatch⟩ :=
    onCatch _ _ _ _ _ atCatch endsText_brace ((lacks _).trans rfl) awaitsThen
  exact (reachesThen.trans reachesCatch).arrives (awaitsCatch.ends atEnd)

end Reading

end TypedSvelte.Markup
