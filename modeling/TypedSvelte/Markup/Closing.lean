import TypedSvelte.Markup.Nesting

/-!
# What a closing tag ends

A closing tag is taken by the innermost open construct only if it belongs to it. Otherwise that
construct is closed with an error and the tag is left for the constructs around it; with nothing
open the tag is passed with an error.
-/
namespace TypedSvelte.Markup

namespace Reading

def strayCloser (r : Reading) : Reading :=
  let start := r.scan.pos
  let word := (r.scan.skip 2).word
  if r.scan.startsWith "</" then
    r.moveTo ((word.2.skipPast '>').fail (.unexpectedClosingTag word.1) start)
  else if r.scan.startsWith "\x7b/" then
    r.moveTo ((word.2.skipPast '}').fail (.unexpectedBlockClose word.1) start)
  else r.moveTo ((word.2.skipPast '}').fail (.unexpectedContinuation word.1) start)

/-- The text after the word of a continuation `{:word text}`, unless it is blank, and the place
after the continuation. -/
def continuation (s : Scan) : Option Expression × Scan :=
  let read := (s.skip 2).word.2.expression s.pos
  (read.1.filter (!·.isEmpty), read.2)

/-- The place after the closing tag of an element. A tag of another name is left where it is. -/
def closeTag (s : Scan) (name : String) (start : Nat) : Scan :=
  if s.startsWith "</" then
    let found := String.ofList ((s.rest.drop 2).takeWhile fun c => !(isBlank c || c == '>'))
    if found == name then s.skipPast '>' else s.fail (.mismatchedClosingTag name found) start
  else s.fail (.unclosedTag name) start

/-- The place after the end of a block. An end of another block is left where it is. -/
def closeBlock (s : Scan) (block : String) (start : Nat) : Scan :=
  if s.atWord "\x7b/" block then s.skipPast '}' else s.fail (.unclosedBlock block) start

/-- The condition made of its arms, innermost first and not empty, all of which end at byte `stop`;
the outermost ends at byte `close`. -/
def conditionNode (stop close : Nat) (alternate : Alternate) : List Arm → Node
  | [] => default
  | [arm] => .ifBlock ⟨arm.start, close⟩ arm.condition arm.consequent alternate
  | arm :: outer =>
    conditionNode stop close
      (.elseIf ⟨arm.start, stop⟩ arm.condition arm.consequent alternate) outer

def outermostStart (arms : List Arm) : Nat := (arms.getLast?.map (·.start)).getD 0

/-- The branch of an `{#await}` block that the continuation ahead opens. -/
def nextBranch? (s : Scan) (a : Awaiting) : Option AwaitBranch :=
  [AwaitBranch.then_, .catch_].find? fun branch => s.atWord "\x7b:" branch.word && a.lacks branch

/-- What becomes of a construct at a closing tag: it goes on as another construct, or it is closed
and leaves a node. -/
inductive Closing where
  | goesOn (scan : Scan) (construct : Construct)
  | closed (scan : Scan) (node : Node)
  deriving Inhabited

def closeCondition (s : Scan) (arms : List Arm) (alternate : Alternate) : Closing :=
  let last := closeBlock s "if" (outermostStart arms)
  .closed last (conditionNode s.pos last.pos alternate arms)

/-- Goes on with the next branch of an `{#await}` block or ends it. -/
def closeAwait (s : Scan) (a : Awaiting) : Closing :=
  match nextBranch? s a with
  | some branch =>
    let read := continuation s
    .goesOn read.2 (.awaitBranch a branch read.1)
  | none =>
    let last := closeBlock s "await" a.start
    .closed last (a.node last.pos)

/-- What becomes of a construct, whose nodes are all read, at a closing tag or the end. -/
def close (s : Scan) (nodes : List Node) : Construct → Closing
  | .element start name attributes =>
    let last := closeTag s name start
    let head : ElementHead :=
      ⟨⟨start, last.pos⟩, name, ElementKind.ofName name, attributes, false⟩
    .closed last (.element head nodes)
  | .arm start condition earlier =>
    let arms := ⟨start, condition, nodes⟩ :: earlier
    if s.atWord "\x7b:" "else" then
      let read := continuation s
      match read.1 with
      | none => .goesOn read.2 (.otherwise arms)
      | some rest =>
        match elseIfCondition? rest with
        | some next => .goesOn read.2 (.arm s.pos next arms)
        | none => .goesOn (read.2.fail (.expectedElseIf rest.text) s.pos) (.otherwise arms)
    else closeCondition s arms .absent
  | .otherwise arms => closeCondition s arms (.otherwise nodes)
  | .eachBody start header =>
    if s.atWord "\x7b:" "else" then .goesOn (continuation s).2 (.eachFallback start header nodes)
    else
      let last := closeBlock s "each" start
      let head : EachHead :=
        ⟨⟨start, last.pos⟩, header.expression, header.context, header.index, header.key⟩
      .closed last (.each head nodes none)
  | .eachFallback start header body =>
    let last := closeBlock s "each" start
    let head : EachHead :=
      ⟨⟨start, last.pos⟩, header.expression, header.context, header.index, header.key⟩
    .closed last (.each head body (some nodes))
  | .awaitPending start expression => closeAwait s ⟨start, expression, nodes, none, none⟩
  | .awaitBranch done branch binding => closeAwait s (done.put branch binding nodes)
  | .key start expression =>
    let last := closeBlock s "key" start
    .closed last (.key ⟨start, last.pos⟩ expression nodes)

def leave (r : Reading) (frame : Frame) (outer : List Frame) : Reading :=
  match close r.scan r.nodes.reverse frame.construct with
  | .goesOn scan construct =>
    { r with scan := scan, stack := { frame with construct := construct } :: outer, nodes := [] }
  | .closed scan node =>
    { r with scan := scan, stack := outer, nodes := node :: frame.before }

end Reading

end TypedSvelte.Markup
