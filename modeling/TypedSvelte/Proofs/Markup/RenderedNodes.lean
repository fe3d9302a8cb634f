import TypedSvelte.Proofs.Markup.RenderedParts

/-!
# Rendered nodes

A reading before a canonical text goes on, without noting an error or setting a script aside, to a
place behind it where it has the rendered nodes up to spans (`Reading.Reads`). Texts and mustaches are
read by one step. An element is entered, reads the nodes of its children and leaves a node
(`Reading.reads_of_enter`, `Reading.arrives_closed`), whatever is open around it.
-/
namespace TypedSvelte.Markup

open Scan

namespace Reading

variable {r mid next : Reading} {rest : List Char} {scan : Scan}

/-- `next` is a later state of the reading, up to which no error has been noted and no script or
style has been set aside. -/
structure Continues (r next : Reading) : Prop where
  finish : r.finish = next.finish
  errors : next.scan.errors = r.scan.errors
  moduleScript : next.moduleScript = r.moduleScript
  instanceScript : next.instanceScript = r.instanceScript
  styles : next.styles = r.styles

theorem Continues.refl (r : Reading) : r.Continues r := ⟨rfl, rfl, rfl, rfl, rfl⟩

theorem Continues.trans (first : r.Continues mid) (second : mid.Continues next) :
    r.Continues next where
  finish := first.finish.trans second.finish
  errors := second.errors.trans first.errors
  moduleScript := second.moduleScript.trans first.moduleScript
  instanceScript := second.instanceScript.trans first.instanceScript
  styles := second.styles.trans first.styles

theorem finish_of_step (stepped : r.step = some next) : r.finish = next.finish := by
  rw [finish]
  split
  · rename_i ended
    rw [ended] at stepped
    cases stepped
  · rename_i other same
    rw [same] at stepped
    cases stepped
    rfl

private theorem finish_of_ended (ended : r.step = none) : r.finish = r := by
  rw [finish]
  split
  · rfl
  · rename_i other same
    rw [ended] at same
    cases same

theorem rest_start (text : List Char) : (start (String.ofList text)).scan.rest = text ++ [] := by
  rw [List.append_nil]
  exact String.toList_ofList

/-- With nothing left and nothing open, all has been read. -/
theorem finish_of_read (ended : r.scan.rest = []) (stack : r.stack = []) : r.finish = r := by
  refine finish_of_ended ?_
  unfold step
  rw [if_pos (by simp [atEnd, ended]), stack]
  exact if_pos (by simp [atEnd, ended])

/-- The reading goes on without an error to a place before `rest`, where the given constructs are
open and the nodes are the given ones up to spans, last first. -/
def Arrives (r : Reading) (rest : List Char) (stack : List Frame) (nodes : List Node) : Prop :=
  ∃ next, r.Continues next ∧ next.scan.rest = rest ∧ next.stack = stack ∧
    next.nodes.map Node.bare = nodes

theorem Continues.arrives {stack : List Frame} {nodes : List Node} (continues : r.Continues mid)
    (arrives : mid.Arrives rest stack nodes) : r.Arrives rest stack nodes := by
  obtain ⟨next, goesOn, reached⟩ := arrives
  exact ⟨next, continues.trans goesOn, reached⟩

/-- Every reading before the text reads the nodes from it, up to spans. -/
def Reads (text : List Char) (nodes : List Node) (rest : List Char) : Prop :=
  ∀ r : Reading, r.scan.rest = text ++ rest →
    r.Arrives rest r.stack (nodes.reverse ++ r.nodes.map Node.bare)

variable {text first second : List Char} {nodes before after : List Node} {node : Node}

theorem reads_nil : Reads [] [] rest :=
  fun r ahead => ⟨r, .refl r, ahead, rfl, rfl⟩

theorem Reads.append (readsFirst : Reads first before (second ++ rest))
    (readsSecond : Reads second after rest) : Reads (first ++ second) (before ++ after) rest := by
  intro r ahead
  obtain ⟨mid, reaches, midAhead, midStack, midNodes⟩ :=
    readsFirst r (by rw [ahead, List.append_assoc])
  obtain ⟨next, goesOn, nextAhead, nextStack, nextNodes⟩ := readsSecond mid midAhead
  refine ⟨next, reaches.trans goesOn, nextAhead, nextStack.trans midStack, ?_⟩
  rw [nextNodes, midNodes, List.reverse_append, List.append_assoc]

/-- A text is read by one step that adds a node. -/
theorem reads_of_add (adds : ∀ r : Reading, r.scan.rest = text ++ rest →
    ∃ scan added, r.step = some (r.add scan added) ∧ r.scan.Lands scan rest ∧ added.bare = node) :
    Reads text [node] rest := by
  intro r ahead
  obtain ⟨scan, added, stepped, lands, rfl⟩ := adds r ahead
  exact ⟨r.add scan added, ⟨finish_of_step stepped, lands.errors, rfl, rfl, rfl⟩, lands.ahead, rfl,
    rfl⟩

theorem bareNodes_eq_map (nodes : List Node) : bareNodes nodes = nodes.map Node.bare := by
  induction nodes with
  | nil => rfl
  | cons node nodes ih => rw [bareNodes, ih, List.map_cons]

/-- The nodes of a construct that has just been opened or goes on. -/
theorem Reads.children (reads : Reads text nodes rest) (r : Reading)
    (ahead : r.scan.rest = text ++ rest) (empty : r.nodes = []) :
    ∃ next, r.Continues next ∧ next.scan.rest = rest ∧ next.stack = r.stack ∧
      bareNodes next.nodes.reverse = nodes := by
  obtain ⟨next, goesOn, nextAhead, nextStack, nextNodes⟩ := reads r ahead
  refine ⟨next, goesOn, nextAhead, nextStack, ?_⟩
  rw [bareNodes_eq_map, List.map_reverse, nextNodes, empty, List.map_nil, List.append_nil,
    List.reverse_reverse]

variable {construct goneOn : Construct} {outer : List Frame}

theorem step_leave {frame : Frame} (closer : r.scan.atCloser = true)
    (stack : r.stack = frame :: outer) : r.step = some (r.leave frame outer) := by
  unfold step
  rw [closer, Bool.or_true, if_pos rfl, stack]

/-- A construct that is closed leaves its node. -/
theorem arrives_closed {closed : Node} (closer : r.scan.atCloser = true)
    (stack : r.stack = ⟨construct, before⟩ :: outer)
    (closes : close r.scan r.nodes.reverse construct = .closed scan closed)
    (lands : r.scan.Lands scan rest) :
    r.Arrives rest outer (closed.bare :: before.map Node.bare) := by
  have stepped := step_leave closer stack
  unfold leave at stepped
  rw [closes] at stepped
  exact ⟨_, ⟨finish_of_step stepped, lands.errors, rfl, rfl, rfl⟩, lands.ahead, rfl, rfl⟩

/-- A construct that goes on reads its nodes anew. -/
theorem goesOn_children (closer : r.scan.atCloser = true)
    (stack : r.stack = ⟨construct, before⟩ :: outer)
    (goesOn : close r.scan r.nodes.reverse construct = .goesOn scan goneOn)
    (lands : r.scan.Lands scan (text ++ rest)) (reads : Reads text nodes rest) :
    ∃ last, r.Continues last ∧ last.scan.rest = rest ∧ last.stack = ⟨goneOn, before⟩ :: outer ∧
      bareNodes last.nodes.reverse = nodes := by
  have stepped := step_leave closer stack
  unfold leave at stepped
  rw [goesOn] at stepped
  obtain ⟨last, reaches, reached⟩ :=
    reads.children { r with scan := scan, stack := ⟨goneOn, before⟩ :: outer, nodes := [] }
      lands.ahead rfl
  have next : r.Continues { r with scan := scan, stack := ⟨goneOn, before⟩ :: outer, nodes := [] } :=
    ⟨finish_of_step stepped, lands.errors, rfl, rfl, rfl⟩
  exact ⟨last, next.trans reaches, reached⟩

/-- A text is read by opening a construct that leaves a node. -/
theorem reads_of_enter (enters : ∀ r : Reading, r.scan.rest = text ++ rest →
    ∃ scan construct inner, r.step = some (r.enter scan construct) ∧ r.scan.Lands scan inner ∧
      (r.enter scan construct).Arrives rest r.stack (node :: r.nodes.map Node.bare)) :
    Reads text [node] rest := by
  intro r ahead
  obtain ⟨scan, construct, inner, stepped, lands, arrives⟩ := enters r ahead
  have entered : r.Continues (r.enter scan construct) :=
    ⟨finish_of_step stepped, lands.errors, rfl, rfl, rfl⟩
  exact entered.arrives arrives

theorem step_open {c : Char} {cs : List Char} (ahead : r.scan.rest = c :: cs)
    (opens : r.scan.atCloser = false) : r.step = some r.open_ := by
  unfold step
  rw [if_neg]
  simp [atEnd, ahead, opens]

/-- A text ends before something that is not text. -/
def EndsText (rest : List Char) : Prop := textLength rest = 0

theorem endsText_tag {c : Char} (letter : c.isAlpha = true) : EndsText ('<' :: c :: rest) := by
  unfold EndsText
  rw [textLength, if_pos]
  simp [letter]

theorem endsText_brace : EndsText ('{' :: rest) := rfl

theorem textLength_append {text : List Char} (plain : ∀ d ∈ text, d ≠ '<' ∧ d ≠ '{')
    (ends : EndsText rest) : textLength (text ++ rest) = text.length := by
  induction text with
  | nil => exact ends
  | cons c cs ih =>
    obtain ⟨⟨notTag, notBrace⟩, others⟩ := List.forall_mem_cons.1 plain
    rw [List.cons_append, textLength, ih others]
    simp [notTag, notBrace]

theorem step_text {c : Char} {cs : List Char} (ahead : r.scan.rest = c :: cs) (notTag : c ≠ '<')
    (notBrace : c ≠ '{') : r.step = some r.readText := by
  have opens : r.scan.atCloser = false := by
    unfold atCloser
    rw [ahead]
    split <;> simp_all
  have noTag : r.scan.atTag = false := by
    unfold atTag
    rw [ahead]
    split <;> simp_all
  rw [step_open ahead opens]
  unfold open_
  simp [startsWith, ahead, noTag, notTag.symm, notBrace.symm]

theorem reads_text {text : PlainText} (ends : EndsText rest) :
    Reads text.val [textNode text] rest := by
  obtain ⟨chars, valid⟩ := text
  simp only [isPlainText, Bool.and_eq_true, Bool.not_eq_true', List.all_eq_true, bne_iff_ne] at valid
  obtain ⟨filled, plain⟩ := valid
  refine reads_of_add fun r ahead => ?_
  cases chars with
  | nil => cases filled
  | cons c cs =>
    obtain ⟨⟨notTag, notBrace⟩, others⟩ := List.forall_mem_cons.1 plain
    have size : textLength r.scan.rest.tail + 1 = (c :: cs).length := by
      rw [ahead, List.cons_append, List.tail_cons, textLength_append others ends, List.length_cons]
    have stepped := step_text ahead notTag notBrace
    unfold readText at stepped
    rw [size] at stepped
    refine ⟨_, _, stepped, lands_skip ahead rfl, ?_⟩
    simp only [Node.bare, RawText.bare, rawText, textNode]
    rw [ahead, List.take_left]

/-- What follows the brace of a mustache is no mark. -/
theorem step_mustache {c : Char} {cs : List Char} (ahead : r.scan.rest = '{' :: c :: cs)
    (noMark : ∀ mark ∈ ['/', ':', '#', '@'], mark ≠ c) : r.step = some r.readMustache := by
  have opens : r.scan.atCloser = false := by
    have noEnd := noMark '/' (by decide)
    have noContinuation := noMark ':' (by decide)
    unfold atCloser
    rw [ahead]
    split <;> simp_all
  rw [step_open ahead opens]
  unfold open_
  simp [startsWith, atTag, ahead, noMark '#' (by decide), noMark '@' (by decide)]

/-- No mark is a character of identifiers. -/
theorem ne_of_isIdentChar {c : Char} (ident : isIdentChar c = true) :
    ∀ mark ∈ ['/', ':', '#', '@'], mark ≠ c := by
  intro mark member
  have others : (['/', ':', '#', '@'].all fun mark => !isIdentChar mark) = true := by decide
  have other := List.all_eq_true.1 others mark member
  rw [Bool.not_eq_true'] at other
  exact ne_of_class ident other

theorem reads_mustache {e : Ident} :
    Reads ('{' :: e.val ++ ['}']) [.mustache default (Ident.expression e)] rest := by
  refine reads_of_add fun r ahead => ?_
  obtain ⟨c, cs, begins, _, chars⟩ := isWord_iff.1 e.isWord
  have whole : r.scan.rest = '{' :: (e.val ++ '}' :: rest) := by
    rw [ahead]
    simp
  have next : r.scan.Lands (r.scan.skip 1) (e.val ++ '}' :: rest) :=
    @lands_skip _ ['{'] _ 1 whole rfl
  obtain ⟨read, lands⟩ := @lands_expression _ _ _ r.scan.pos isHeaderChar_ident next.ahead
  have bare := @bare_ofText [] e (r.scan.skip 1).pos (.inl rfl)
  rw [List.nil_append] at bare
  have stepped := step_mustache (whole.trans (by rw [begins]; rfl))
    (ne_of_isIdentChar (chars c (begins ▸ .head _)))
  unfold readMustache at stepped
  dsimp only at stepped
  rw [read] at stepped
  dsimp only at stepped
  rw [if_neg (by simp [isEmpty_of_bare bare])] at stepped
  refine ⟨_, _, stepped, next.trans lands, ?_⟩
  rw [Node.bare, bare]

theorem step_element {c : Char} {cs : List Char} (ahead : r.scan.rest = '<' :: c :: cs)
    (letter : c.isAlpha = true) : r.step = some r.readElement := by
  have other (mark : Char) (noLetter : mark.isAlpha = false) : mark ≠ c :=
    ne_of_class letter noLetter
  have opens : r.scan.atCloser = false := by
    have noEnd := other '/' (by decide)
    unfold atCloser
    rw [ahead]
    split <;> simp_all
  have tag : r.scan.atTag = true := by
    simp [atTag, ahead, letter]
  rw [step_open ahead opens]
  unfold open_
  simp [startsWith, ahead, tag, other '!' (by decide)]

variable {name : TagName} {attributes : List TreeAttribute}

/-- An opening tag opens an element with its attributes. -/
theorem enters_element (ahead : r.scan.rest =
    '<' :: (name.val ++ (attributes.flatMap TreeAttribute.render ++ '>' :: rest))) :
    ∃ scan read, r.step = some (r.enter scan (.element r.scan.pos (String.ofList name.val) read)) ∧
      r.scan.Lands scan rest ∧
      read.map Attribute.bare = attributes.map TreeAttribute.attribute := by
  obtain ⟨c, cs, begins, lower, _, notVoid, notScript, notStyle⟩ := tagName_cases name
  have named : r.scan.Lands (r.scan.skip 1)
      (name.val ++ (attributes.flatMap TreeAttribute.render ++ '>' :: rest)) :=
    @lands_skip _ ['<'] _ 1 ahead rfl
  have size : (r.scan.skip 1).count (fun c => !(isBlank c || c == '/' || c == '>')) =
      name.val.length := by
    rw [count, named.ahead, takeWhile_until]
    · intro d member
      simp [tagName_char member]
    · cases attributes with
      | nil => exact endsRun_cons rfl
      | cons a more => exact endsRun_cons rfl
  have behind := named.trans (lands_skip named.ahead rfl)
  obtain ⟨read, tag⟩ := lands_attributes behind.ahead
  have ended := @lands_skip _ ['>'] _ 1 tag.ahead rfl
  have stepped := step_element (ahead.trans (by rw [begins]; rfl)) (isAlpha_of_isLower lower)
  unfold readElement at stepped
  dsimp only at stepped
  rw [size, named.ahead, List.take_left, tagEnd_open tag.ahead] at stepped
  dsimp only at stepped
  rw [if_neg (by simp [notScript, notStyle]), if_neg (by simp [notVoid])] at stepped
  exact ⟨_, _, stepped, (behind.trans tag).trans ended, read⟩

theorem reads_element
    (children : Reads text nodes ("</".toList ++ name.val ++ '>' :: rest)) :
    Reads ('<' :: name.val ++ attributes.flatMap TreeAttribute.render ++ '>' :: text ++
        "</".toList ++ name.val ++ ['>'])
      [.element ⟨default, String.ofList name.val, ElementKind.ofName (String.ofList name.val),
        attributes.map TreeAttribute.attribute, false⟩ nodes] rest := by
  refine reads_of_enter fun r ahead => ?_
  have whole : r.scan.rest = '<' :: (name.val ++ (attributes.flatMap TreeAttribute.render ++
      '>' :: (text ++ ("</".toList ++ name.val ++ '>' :: rest)))) := by
    rw [ahead]
    simp
  obtain ⟨scan, read, stepped, lands, same⟩ := enters_element whole
  refine ⟨scan, _, _, stepped, lands, ?_⟩
  obtain ⟨last, goesOn, atEnd, stack, bare⟩ := children.children
    (r.enter scan (.element r.scan.pos (String.ofList name.val) read)) lands.ahead rfl
  have closer : last.scan.atCloser = true := by
    unfold atCloser
    rw [atEnd]
    rfl
  have closed := arrives_closed closer stack rfl (lands_closeTag atEnd)
  rw [Node.bare, bare, ElementHead.bare, same] at closed
  exact goesOn.arrives closed

end Reading

end TypedSvelte.Markup
