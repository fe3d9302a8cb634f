import TypedSvelte.Proofs.Markup.Passage

/-!
# Where scripts stand

The spans of a top-level script cut the source into five parts, of which the opening tag begins with
`<` and the closing tag is missing or begins with `</script` (`Script.Stands`). Only `readRaw` sets
scripts aside; every other reader moves on and leaves them as they are (`Reading.Moves`). So the
invariant `Reading.Sound` holds after every step, and of a whole component.
-/
namespace TypedSvelte.Markup

/-- The opening tag, the content and the closing tag stand in the source one after another. -/
def Script.Stands (source : List Char) (script : Script) : Prop :=
  ∃ before opening content closing after,
    source = before ++ ('<' :: opening) ++ content ++ closing ++ after ∧
    (closing = [] ∨ "</script".toList <+: closing) ∧
    script.openTag.start = byteSize before ∧
    script.openTag.stop = script.openTag.start + byteSize ('<' :: opening) ∧
    script.contentSpan = ⟨script.openTag.stop, script.openTag.stop + byteSize content⟩ ∧
    script.closeTag = ⟨script.contentSpan.stop, script.contentSpan.stop + byteSize closing⟩

/-- A closing tag is missing or at least as long as its beginning. -/
theorem Script.Stands.size_closeTag {source : List Char} {script : Script}
    (stands : script.Stands source) : script.closeTag.size = 0 ∨ 8 ≤ script.closeTag.size := by
  obtain ⟨_, _, _, closing, _, _, begins, _, _, _, closeTag⟩ := stands
  rw [closeTag, Span.size, Nat.add_sub_cancel_left]
  rcases begins with rfl | ⟨rest, rfl⟩
  · exact Or.inl rfl
  · rw [byteSize_append]
    exact Or.inr (Nat.le_add_right 8 _)

/-- The opening tag begins with `<`. -/
theorem Script.Stands.byte_openTag {source : String} {script : Script}
    (stands : script.Stands source.toList) : (bytes source)[script.openTag.start]? = some 60 := by
  obtain ⟨before, opening, content, closing, after, text, _, start, _⟩ := stands
  have whole : source = String.ofList (before ++ '<' :: (opening ++ content ++ closing ++ after)) := by
    rw [← String.ofList_toList (s := source), text]
    simp only [List.append_assoc, List.cons_append]
  rw [start, whole, byte_after]
  rfl

/-- The parts of a script follow one another; the opening tag is not empty, and the content is a
slice of the source. -/
theorem Script.Stands.order {source : String} {script : Script}
    (stands : script.Stands source.toList) :
    script.openTag.start < script.openTag.stop ∧ script.openTag.stop = script.contentSpan.start ∧
      script.closeTag.start = script.contentSpan.stop ∧
      script.closeTag.start ≤ script.closeTag.stop ∧
      slice? source script.contentSpan.start script.contentSpan.stop =
        some (script.contentSpan.text source) := by
  obtain ⟨before, opening, content, closing, after, text, _, start, openStop, contentSpan, closeTag⟩ :=
    stands
  have whole : source = String.ofList (before ++ '<' :: opening) ++ String.ofList content ++
      String.ofList (closing ++ after) := by
    rw [← String.ofList_append, ← String.ofList_append, ← String.ofList_toList (s := source), text]
    simp only [List.append_assoc]
  have slice : slice? source script.contentSpan.start script.contentSpan.stop =
      some (String.ofList content) := by
    refine (slice?_eq_some_iff _ _ _ _).2 ⟨_, _, whole, ?_, ?_⟩
    · rw [utf8ByteSize_ofList, byteSize_append, contentSpan, openStop, start]
    · rw [utf8ByteSize_ofList, contentSpan]
  have positive : 0 < byteSize ('<' :: opening) := Nat.lt_of_lt_of_le (by decide) (Nat.le_add_right 1 _)
  refine ⟨by omega, by rw [contentSpan], by rw [closeTag], ?_, ?_⟩
  · rw [closeTag]
    exact Nat.le_add_right _ _
  · rw [Span.text, slice]
    rfl

namespace Reading

open Scan

variable {source : String} {r next : Reading} {scan : Scan}

/-- The reading has moved on and holds the same scripts. -/
structure Moves (r next : Reading) : Prop where
  reached : r.scan.Reaches next.scan
  moduleScript : next.moduleScript = r.moduleScript
  instanceScript : next.instanceScript = r.instanceScript

theorem moves_moveTo (reached : r.scan.Reaches scan) : r.Moves (r.moveTo scan) :=
  ⟨reached, rfl, rfl⟩

theorem moves_add (reached : r.scan.Reaches scan) (node : Node) : r.Moves (r.add scan node) :=
  ⟨reached, rfl, rfl⟩

theorem moves_enter (reached : r.scan.Reaches scan) (construct : Construct) :
    r.Moves (r.enter scan construct) :=
  ⟨reached, rfl, rfl⟩

theorem moves_leave (r : Reading) (frame : Frame) (outer : List Frame) :
    r.Moves (r.leave frame outer) := by
  have reached := reaches_close r.scan r.nodes.reverse frame.construct
  unfold leave
  split
  · rename_i closing
    rw [closing] at reached
    exact ⟨reached, rfl, rfl⟩
  · rename_i closing
    rw [closing] at reached
    exact ⟨reached, rfl, rfl⟩

theorem moves_strayCloser (r : Reading) : r.Moves r.strayCloser := by
  have word := (r.scan.reaches_skip 2).trans (reaches_word _)
  unfold strayCloser
  dsimp only
  split
  · exact moves_moveTo ((word.trans (reaches_skipPast _ '>')).fail _ _)
  · split
    · exact moves_moveTo ((word.trans (reaches_skipPast _ '}')).fail _ _)
    · exact moves_moveTo ((word.trans (reaches_skipPast _ '}')).fail _ _)

theorem moves_readText (r : Reading) : r.Moves r.readText := moves_add (r.scan.reaches_skip _) _

theorem moves_readComment (r : Reading) : r.Moves r.readComment := by
  have body := r.scan.reaches_skip 4
  unfold readComment
  dsimp only
  split
  · exact moves_add (body.skip _) _
  · exact moves_add ((body.trans (reaches_skipAll _)).fail _ _) _

theorem moves_readMustache (r : Reading) : r.Moves r.readMustache := by
  have read := (r.scan.reaches_skip 1).trans (reaches_expression _ r.scan.pos)
  unfold readMustache
  dsimp only
  split
  · exact moves_moveTo read
  · split
    · exact moves_moveTo (read.fail _ _)
    · exact moves_add read _

theorem moves_readTag (r : Reading) : r.Moves r.readTag := by
  have word := (r.scan.reaches_skip 2).trans (reaches_word _)
  have read := word.trans (reaches_expression _ r.scan.pos)
  unfold readTag
  dsimp only
  split
  · exact moves_moveTo read
  · exact moves_moveTo (read.fail _ _)
  · exact moves_add read _

theorem moves_readBlock (r : Reading) : r.Moves r.readBlock := by
  have word := (r.scan.reaches_skip 2).trans (reaches_word _)
  have read := word.trans (reaches_expression _ r.scan.pos)
  unfold readBlock
  dsimp only
  split
  · exact moves_moveTo read
  · split
    · exact moves_enter read _
    · exact moves_moveTo (read.fail _ _)

/-- The reading is at a place of the source, and the scripts set aside stand in the source. -/
structure Sound (source : String) (r : Reading) : Prop where
  here : (Scan.ofSource source).Reaches r.scan
  moduleScript : ∀ script, r.moduleScript = some script → script.Stands source.toList
  instanceScript : ∀ script, r.instanceScript = some script → script.Stands source.toList

theorem sound_start (source : String) : Sound source (start source) :=
  ⟨Reaches.refl _, nofun, nofun⟩

theorem Moves.sound (moves : r.Moves next) (sound : Sound source r) : Sound source next := by
  refine ⟨sound.here.trans moves.reached, ?_, ?_⟩
  · rw [moves.moduleScript]
    exact sound.moduleScript
  · rw [moves.instanceScript]
    exact sound.instanceScript

private theorem sound_addScript (sound : Sound source r) {script : Script}
    (stands : script.Stands source.toList) : Sound source (r.addScript script) := by
  unfold addScript
  split
  · split
    · exact (moves_moveTo ((Reaches.refl _).fail _ _)).sound sound
    · refine ⟨sound.here, fun other same => ?_, sound.instanceScript⟩
      cases Option.some.inj same
      exact stands
  · split
    · exact (moves_moveTo ((Reaches.refl _).fail _ _)).sound sound
    · refine ⟨sound.here, sound.moduleScript, fun other same => ?_⟩
      cases Option.some.inj same
      exact stands

/-- What `readRaw` does: it looks for the closing tag from the place `opened`, goes to the place
`last` after it, and there sets a script aside unless it adds a node or a style. -/
theorem readRaw_cases (r : Reading) (start : Nat) (name : String) (attributes : List Attribute) :
    ∃ closing last, r.scan.Reaches closing ∧
      (last.rest = closing.rest ∧ last.pos = closing.pos ∨
        ("</" ++ name).toList <+: closing.rest ∧ last = closing.skipPast '>') ∧
      (r.Moves (r.readRaw start name attributes) ∨ name ≠ "style" ∧
        r.readRaw start name attributes = (r.moveTo last).addScript
          { span := ⟨start, last.pos⟩, openTag := ⟨start, r.scan.pos⟩
            closeTag := ⟨closing.pos, last.pos⟩, contentSpan := ⟨r.scan.pos, closing.pos⟩
            lang := ScriptLang.ofAttributes attributes
            context := ScriptContext.ofAttributes attributes, attributes }) := by
  unfold readRaw
  dsimp only
  cases found : findText? ("</" ++ name).toList r.scan.rest with
  | none =>
    have reached : r.scan.Reaches ((r.scan.skip r.scan.rest.length).fail (.unclosedTag name) start) :=
      (r.scan.reaches_skip _).fail _ _
    refine ⟨r.scan.skip r.scan.rest.length,
      (r.scan.skip r.scan.rest.length).fail (.unclosedTag name) start, r.scan.reaches_skip _,
      Or.inl ⟨rfl, rfl⟩, ?_⟩
    split
    · exact Or.inl ⟨reached, rfl, rfl⟩
    · split
      · exact Or.inl ⟨reached, rfl, rfl⟩
      · rename_i other
        exact Or.inr ⟨by simpa using other, rfl⟩
  | some n =>
    have reached : r.scan.Reaches ((r.scan.skip n).skipPast '>') :=
      (r.scan.reaches_skip n).trans (reaches_skipPast _ _)
    refine ⟨r.scan.skip n, (r.scan.skip n).skipPast '>', r.scan.reaches_skip n,
      Or.inr ⟨findText?_spec found, rfl⟩, ?_⟩
    split
    · exact Or.inl ⟨reached, rfl, rfl⟩
    · split
      · exact Or.inl ⟨reached, rfl, rfl⟩
      · rename_i other
        exact Or.inr ⟨by simpa using other, rfl⟩

/-- The text from `opened` on, whose opening tag began with the reading at `<`, is cut at a closing
tag or reaches to the end. -/
theorem sound_readRaw (sound : Sound source r) {opened : Scan} {opening : List Char}
    (ahead : r.scan.rest = '<' :: opening ++ opened.rest)
    (pos : opened.pos = r.scan.pos + byteSize ('<' :: opening)) {name : String}
    (known : name = "script" ∨ name = "style") (attributes : List Attribute) :
    Sound source ((r.moveTo opened).readRaw r.scan.pos name attributes) := by
  have reached : r.scan.Reaches opened := ⟨'<' :: opening, ahead, pos⟩
  have soundOpened : Sound source (r.moveTo opened) := (moves_moveTo reached).sound sound
  obtain ⟨closing, last, toClosing, ends, moves | ⟨notStyle, set⟩⟩ :=
    readRaw_cases (r.moveTo opened) r.scan.pos name attributes
  · exact moves.sound soundOpened
  · have isScript : name = "script" := known.resolve_right notStyle
    subst isScript
    obtain ⟨before, here, herePos⟩ := sound.here
    obtain ⟨content, contentRest, contentPos⟩ := toClosing
    obtain ⟨closer, closerRest, closerPos, closerText⟩ :
        ∃ closer, closing.rest = closer ++ last.rest ∧ last.pos = closing.pos + byteSize closer ∧
          (closer = [] ∨ "</script".toList <+: closer) := by
      rcases ends with ⟨sameRest, samePos⟩ | ⟨found, rfl⟩
      · exact ⟨[], sameRest.symm, samePos, Or.inl rfl⟩
      · obtain ⟨closer, rest, pos, starts⟩ :=
          skipPast_passes (c := '>') found (by decide)
        exact ⟨closer, rest, pos, Or.inr starts⟩
    rw [set]
    have toLast : opened.Reaches last := by
      have first : opened.Reaches closing := ⟨content, contentRest, contentPos⟩
      exact first.trans ⟨closer, closerRest, closerPos⟩
    apply sound_addScript ((moves_moveTo toLast).sound soundOpened)
    refine ⟨before, opening, content, closer, last.rest, ?_, closerText, ?_, pos, ?_, ?_⟩
    · change source.toList = before ++ r.scan.rest at here
      change opened.rest = content ++ closing.rest at contentRest
      rw [here, ahead, contentRest, closerRest]
      simp only [List.append_assoc]
    · exact herePos.trans (Nat.zero_add _)
    · exact congrArg (Span.mk opened.pos) contentPos
    · exact congrArg (Span.mk closing.pos) closerPos

private theorem sound_readElement (sound : Sound source r) (tag : r.scan.atTag = true) :
    Sound source r.readElement := by
  obtain ⟨rest, ahead⟩ : ∃ rest, r.scan.rest = '<' :: rest := by
    unfold atTag at tag
    split at tag
    · rename_i c more ahead
      exact ⟨c :: more, ahead⟩
    · cases tag
  have tail (n : Nat) (name : String) (start : Nat) : (r.scan.skip 1).Reaches
      (tagEnd ((r.scan.skip 1).skip n).attributes.2 name start).2 :=
    ((reaches_skip _ n).trans (reaches_attributes _)).trans (reaches_tagEnd _ _ _)
  unfold readElement
  dsimp only
  split
  · rename_i raw
    obtain ⟨opening, opened, pos⟩ := passes_head ahead (tail _ _ _)
    apply sound_readRaw sound opened pos
    simp only [Bool.and_eq_true, Bool.or_eq_true, beq_iff_eq] at raw
    exact raw.2
  · have reached := fun n name start => (r.scan.reaches_skip 1).trans (tail n name start)
    split
    · exact (moves_add (reached _ _ _) _).sound sound
    · exact (moves_enter (reached _ _ _) _).sound sound

private theorem sound_open (sound : Sound source r) : Sound source r.open_ := by
  unfold open_
  split
  · exact r.moves_readComment.sound sound
  split
  · rename_i tag
    exact sound_readElement sound tag
  split
  · exact r.moves_readBlock.sound sound
  split
  · exact r.moves_readTag.sound sound
  split
  · exact r.moves_readMustache.sound sound
  · exact r.moves_readText.sound sound

/-- A step keeps the invariant. -/
theorem sound_step (sound : Sound source r) (stepped : r.step = some next) : Sound source next := by
  unfold step at stepped
  split at stepped
  · split at stepped
    · rename_i frame outer _
      cases stepped
      exact (r.moves_leave frame outer).sound sound
    · split at stepped
      · cases stepped
      · cases stepped
        exact r.moves_strayCloser.sound sound
  · cases stepped
    exact sound_open sound

/-- So does the whole pass. -/
theorem sound_finish (sound : Sound source r) : Sound source r.finish := by
  fun_induction finish r with
  | case1 r ended => exact sound
  | case2 r next stepped falls ih => exact ih (sound_step sound stepped)

end Reading

/-- The instance script of a component stands in its source. -/
theorem stands_of_instanceScript {source : String} {script : Script}
    (found : (parse source).document.instanceScript = some script) :
    script.Stands source.toList :=
  (Reading.sound_finish (Reading.sound_start source)).instanceScript script found

/-- The module script of a component stands in its source. -/
theorem stands_of_moduleScript {source : String} {script : Script}
    (found : (parse source).document.moduleScript = some script) :
    script.Stands source.toList :=
  (Reading.sound_finish (Reading.sound_start source)).moduleScript script found

end TypedSvelte.Markup
