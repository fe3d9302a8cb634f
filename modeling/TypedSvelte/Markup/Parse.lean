import TypedSvelte.Markup.Closing
import TypedSvelte.Markup.Opening

/-!
# Reading components

Each step of the pass over a source either passes at least one character or closes the innermost
open construct, so the pass ends: `Reading.measure` falls (`Reading.measure_step`).
-/
namespace TypedSvelte.Markup

namespace Scan

theorem ne_nil_of_atWord {s : Scan} {before word : String} (h : s.atWord before word = true)
    (hb : before.toList ≠ []) : s.rest ≠ [] := by
  intro hs
  simp [atWord, startsWith, hs, String.toList_append, hb] at h

theorem skip_skip_lt {s : Scan} {n m : Nat} (hn : 0 < n) (hs : s.rest ≠ []) :
    ((s.skip n).skip m).rest.length < s.rest.length :=
  Nat.lt_of_le_of_lt (length_skip_le _ _) (s.skip_lt n hn hs)

theorem expression_skip_lt {s : Scan} {n o : Nat} (hn : 0 < n) (hs : s.rest ≠ []) :
    ((s.skip n).expression o).2.rest.length < s.rest.length :=
  Nat.lt_of_le_of_lt (length_expression_le _ _) (s.skip_lt n hn hs)

theorem word_skip_lt {s : Scan} {n : Nat} (hn : 0 < n) (hs : s.rest ≠ []) :
    (s.skip n).word.2.rest.length < s.rest.length :=
  Nat.lt_of_le_of_lt (length_word_le _) (s.skip_lt n hn hs)

theorem expression_word_skip_lt {s : Scan} {n o : Nat} (hn : 0 < n) (hs : s.rest ≠ []) :
    ((s.skip n).word.2.expression o).2.rest.length < s.rest.length :=
  Nat.lt_of_le_of_lt (length_expression_le _ _) (word_skip_lt hn hs)

end Scan

namespace Reading

open Scan

/-- The quantity that falls with each step: an open construct weighs less than a character. -/
def measure (r : Reading) : Nat := 2 * r.scan.rest.length + r.stack.length

/-- One step, unless all has been read. -/
def step (r : Reading) : Option Reading :=
  if r.scan.atEnd || r.scan.atCloser then
    match r.stack with
    | frame :: outer => some (r.leave frame outer)
    | [] => if r.scan.atEnd then none else some r.strayCloser
  else some r.open_

/-- Characters have been passed, and at most one construct has been opened. -/
def Advanced (r next : Reading) : Prop :=
  next.scan.rest.length < r.scan.rest.length ∧ next.stack.length ≤ r.stack.length + 1

theorem Advanced.measure_lt {r next : Reading} (h : Advanced r next) :
    next.measure < r.measure := by
  obtain ⟨hrest, hstack⟩ := h
  simp only [measure]
  omega

theorem advanced_moveTo {r : Reading} {scan : Scan}
    (h : scan.rest.length < r.scan.rest.length) : Advanced r (r.moveTo scan) :=
  ⟨h, Nat.le_succ _⟩

theorem advanced_add {r : Reading} {scan : Scan} {node : Node}
    (h : scan.rest.length < r.scan.rest.length) : Advanced r (r.add scan node) :=
  ⟨h, Nat.le_succ _⟩

theorem advanced_enter {r : Reading} {scan : Scan} {construct : Construct}
    (h : scan.rest.length < r.scan.rest.length) : Advanced r (r.enter scan construct) :=
  ⟨h, Nat.le_refl _⟩

theorem advanced_readText {r : Reading} (h : r.scan.rest ≠ []) : Advanced r r.readText :=
  advanced_add (r.scan.skip_lt _ (Nat.succ_pos _) h)

theorem advanced_readComment {r : Reading} (h : r.scan.rest ≠ []) :
    Advanced r r.readComment := by
  unfold readComment
  dsimp only
  split
  · exact advanced_add (skip_skip_lt (by decide) h)
  · exact advanced_add (skip_skip_lt (by decide) h)

theorem advanced_readMustache {r : Reading} (h : r.scan.rest ≠ []) :
    Advanced r r.readMustache := by
  have hlt := expression_skip_lt (o := r.scan.pos) (show 0 < 1 by decide) h
  unfold readMustache
  dsimp only
  split
  · exact advanced_moveTo hlt
  · split
    · exact advanced_moveTo hlt
    · exact advanced_add hlt

theorem advanced_readTag {r : Reading} (h : r.scan.rest ≠ []) : Advanced r r.readTag := by
  have hlt := expression_word_skip_lt (o := r.scan.pos) (show 0 < 2 by decide) h
  unfold readTag
  dsimp only
  split
  · exact advanced_moveTo hlt
  · exact advanced_moveTo hlt
  · exact advanced_add hlt

theorem advanced_readBlock {r : Reading} (h : r.scan.rest ≠ []) : Advanced r r.readBlock := by
  have hlt := expression_word_skip_lt (o := r.scan.pos) (show 0 < 2 by decide) h
  unfold readBlock
  dsimp only
  split
  · exact advanced_moveTo hlt
  · split
    · exact advanced_enter hlt
    · exact advanced_moveTo hlt

theorem scan_addScript_rest (r : Reading) (script : Script) :
    (r.addScript script).scan.rest = r.scan.rest := by
  unfold addScript
  split
  · split <;> rfl
  · split <;> rfl

theorem stack_addScript (r : Reading) (script : Script) :
    (r.addScript script).stack = r.stack := by
  unfold addScript
  split
  · split <;> rfl
  · split <;> rfl

theorem length_readRaw_le (r : Reading) (start : Nat) (name : String)
    (attributes : List Attribute) :
    (r.readRaw start name attributes).scan.rest.length ≤ r.scan.rest.length := by
  have hskip (n : Nat) : ((r.scan.skip n).skipPast '>').rest.length ≤ r.scan.rest.length :=
    Nat.le_trans (length_skipPast_le _ _) (length_skip_le _ _)
  unfold readRaw
  dsimp only
  cases findText? ("</" ++ name).toList r.scan.rest with
  | none =>
    split
    · exact length_skip_le _ _
    · split
      · exact length_skip_le _ _
      · rw [scan_addScript_rest]
        exact length_skip_le _ _
  | some n =>
    split
    · exact hskip n
    · split
      · exact hskip n
      · rw [scan_addScript_rest]
        exact hskip n

theorem stack_readRaw (r : Reading) (start : Nat) (name : String)
    (attributes : List Attribute) : (r.readRaw start name attributes).stack = r.stack := by
  unfold readRaw
  dsimp only
  split
  · rfl
  · split
    · rfl
    · rw [stack_addScript]
      rfl

theorem length_tagEnd_le (s : Scan) (name : String) (start : Nat) :
    (tagEnd s name start).2.rest.length ≤ s.rest.length := by
  unfold tagEnd
  split
  · exact length_skip_le _ _
  · split
    · exact length_skip_le _ _
    · exact Nat.le_refl _

theorem advanced_readElement {r : Reading} (h : r.scan.rest ≠ []) :
    Advanced r r.readElement := by
  have hlt (n : Nat) (name : String) (start : Nat) :
      (tagEnd ((r.scan.skip 1).skip n).attributes.2 name start).2.rest.length
        < r.scan.rest.length :=
    Nat.lt_of_le_of_lt (length_tagEnd_le _ _ _)
      (Nat.lt_of_le_of_lt (length_attributes_le _) (skip_skip_lt (by decide) h))
  unfold readElement
  dsimp only
  split
  · refine ⟨Nat.lt_of_le_of_lt (length_readRaw_le _ _ _ _) (hlt _ _ _), ?_⟩
    rw [stack_readRaw]
    exact Nat.le_succ _
  · split
    · exact advanced_add (hlt _ _ _)
    · exact advanced_enter (hlt _ _ _)

theorem advanced_open {r : Reading} (h : r.scan.rest ≠ []) : Advanced r r.open_ := by
  unfold open_
  split
  · exact advanced_readComment h
  split
  · exact advanced_readElement h
  split
  · exact advanced_readBlock h
  split
  · exact advanced_readTag h
  split
  · exact advanced_readMustache h
  · exact advanced_readText h

theorem advanced_strayCloser {r : Reading} (h : r.scan.rest ≠ []) :
    Advanced r r.strayCloser := by
  have hlt (c : Char) :
      ((r.scan.skip 2).word.2.skipPast c).rest.length < r.scan.rest.length :=
    Nat.lt_of_le_of_lt (length_skipPast_le _ _) (word_skip_lt (by decide) h)
  unfold strayCloser
  dsimp only
  split
  · exact advanced_moveTo (hlt _)
  split
  · exact advanced_moveTo (hlt _)
  · exact advanced_moveTo (hlt _)

/-- A construct that goes on has passed characters; a closed one has not moved backwards. -/
def Closing.Falls (s : Scan) : Closing → Prop
  | .goesOn scan _ => scan.rest.length < s.rest.length
  | .closed scan _ => scan.rest.length ≤ s.rest.length

theorem length_continuation_lt {s : Scan} {before word : String}
    (h : s.atWord before word = true) (hb : before.toList ≠ []) :
    (continuation s).2.rest.length < s.rest.length :=
  expression_word_skip_lt (by decide) (ne_nil_of_atWord h hb)

theorem length_closeTag_le (s : Scan) (name : String) (start : Nat) :
    (closeTag s name start).rest.length ≤ s.rest.length := by
  unfold closeTag
  dsimp only
  split
  · split
    · exact length_skipPast_le _ _
    · exact Nat.le_refl _
  · exact Nat.le_refl _

theorem length_closeBlock_le (s : Scan) (block : String) (start : Nat) :
    (closeBlock s block start).rest.length ≤ s.rest.length := by
  unfold closeBlock
  split
  · exact length_skipPast_le _ _
  · exact Nat.le_refl _

theorem falls_closeCondition (s : Scan) (arms : List Arm) (alternate : Alternate) :
    (closeCondition s arms alternate).Falls s :=
  length_closeBlock_le _ _ _

theorem falls_closeAwait (s : Scan) (a : Awaiting) : (closeAwait s a).Falls s := by
  unfold closeAwait
  split
  · rename_i branch h
    have hword := List.find?_some h
    simp only [Bool.and_eq_true] at hword
    exact length_continuation_lt hword.1 (by decide)
  · exact length_closeBlock_le _ _ _

theorem falls_close (s : Scan) (nodes : List Node) (construct : Construct) :
    (close s nodes construct).Falls s := by
  cases construct with
  | element start name attributes => exact length_closeTag_le _ _ _
  | arm start condition earlier =>
    simp only [close]
    split
    · rename_i h
      have hlt := length_continuation_lt h (by decide)
      split
      · exact hlt
      · split
        · exact hlt
        · exact hlt
    · exact falls_closeCondition _ _ _
  | otherwise arms => exact falls_closeCondition _ _ _
  | eachBody start header =>
    simp only [close]
    split
    · rename_i h
      exact length_continuation_lt h (by decide)
    · exact length_closeBlock_le _ _ _
  | eachFallback start header body => exact length_closeBlock_le _ _ _
  | awaitPending start expression => exact falls_closeAwait _ _
  | awaitBranch done branch binding => exact falls_closeAwait _ _
  | key start expression => exact length_closeBlock_le _ _ _

theorem measure_leave {r : Reading} {frame : Frame} {outer : List Frame}
    (h : r.stack = frame :: outer) : (r.leave frame outer).measure < r.measure := by
  have hfalls := falls_close r.scan r.nodes.reverse frame.construct
  unfold leave
  split
  · rename_i heq
    rw [heq] at hfalls
    simp only [Closing.Falls] at hfalls
    simp only [measure, h, List.length_cons]
    omega
  · rename_i heq
    rw [heq] at hfalls
    simp only [Closing.Falls] at hfalls
    simp only [measure, h, List.length_cons]
    omega

/-- Each step falls. -/
theorem measure_step {r next : Reading} (h : r.step = some next) :
    next.measure < r.measure := by
  unfold step at h
  split at h
  · split at h
    · rename_i hstack
      cases h
      exact measure_leave hstack
    · split at h
      · cases h
      · rename_i hend
        cases h
        exact (advanced_strayCloser (by simpa [Scan.atEnd] using hend)).measure_lt
  · rename_i hend
    cases h
    simp only [Bool.or_eq_true, not_or] at hend
    exact (advanced_open (by simpa [Scan.atEnd] using hend.1)).measure_lt

def finish (r : Reading) : Reading :=
  match h : r.step with
  | none => r
  | some next =>
    have := measure_step h
    next.finish
  termination_by r.measure

end Reading

/-- A component with the errors noticed in it, in the order of the source. -/
structure ParseResult where
  document : Document
  errors : List MarkupError
  deriving Inhabited

def parse (source : String) : ParseResult :=
  let r := (Reading.start source).finish
  { document :=
      { span := ⟨0, source.utf8ByteSize⟩
        moduleScript := r.moduleScript
        instanceScript := r.instanceScript
        styles := r.styles.reverse
        fragment := r.nodes.reverse }
    errors := r.scan.errors.reverse }

end TypedSvelte.Markup
