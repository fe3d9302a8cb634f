import TypedSvelte.Proofs.Markup.Steps

/-!
# Every document is placed in its source

`Reading.Placed` is the invariant of the pass over a source: what has been read is placed before the
place of the reading, and what an open construct holds lies behind the beginning of that construct.
A step keeps it (`Reading.Placed.step`), so a document is placed when the pass ends, whatever
errors were noted on the way.
-/
namespace TypedSvelte.Markup

open Scan

variable {source : String}

/-- The nodes being read lie in the innermost open construct, up to the offset `stop`, and the
constructs lie one in the other; with nothing open the nodes lie in the source. -/
inductive StackPlaced (source : String) : Nat → List Node → List Frame → Prop
  | top {stop : Nat} {nodes : List Node} (placed : ∀ node ∈ nodes, node.Placed source ⟨0, stop⟩) :
      StackPlaced source stop nodes []
  | frame {stop : Nat} {nodes : List Node} {frame : Frame} {outer : List Frame}
      (construct : frame.construct.Placed source stop)
      (inner : ∀ node ∈ nodes, node.Placed source ⟨frame.construct.base, stop⟩)
      (around : StackPlaced source frame.construct.start frame.before outer) :
      StackPlaced source stop nodes (frame :: outer)

namespace StackPlaced

variable {stop later : Nat} {nodes : List Node} {stack : List Frame}

theorem mono (placed : StackPlaced source stop nodes stack) (further : stop ≤ later)
    (cut : IsCut source later) : StackPlaced source later nodes stack := by
  cases placed with
  | top placed => exact .top fun node member => (placed node member).mono (inside_further _ further)
  | frame construct inner around =>
    exact .frame (construct.mono further cut)
      (fun node member => (inner node member).mono (inside_further _ further)) around

/-- A node that was read from the offset `stop` on stands behind the others. -/
theorem add {node : Node} (placed : StackPlaced source stop nodes stack)
    (new : node.Placed source ⟨stop, later⟩) (further : stop ≤ later) (cut : IsCut source later) :
    StackPlaced source later (node :: nodes) stack := by
  cases placed.mono further cut with
  | top old =>
    refine .top (List.forall_mem_cons.2 ⟨new.mono ⟨Nat.zero_le _, Nat.le_refl _⟩, old⟩)
  | frame construct old around =>
    refine .frame construct (List.forall_mem_cons.2 ⟨new.mono ⟨?_, Nat.le_refl _⟩, old⟩) around
    cases placed with
    | frame before _ _ => exact before.began.2.2

/-- A construct that begins at the offset `stop` has no nodes at first. -/
theorem enter {construct : Construct} (placed : StackPlaced source stop nodes stack)
    (starts : construct.start = stop) (new : construct.Placed source later) :
    StackPlaced source later [] (⟨construct, nodes⟩ :: stack) :=
  .frame new nofun (starts ▸ placed)

end StackPlaced

namespace Reading

variable {r next : Reading}

/-- What has been read is placed before the place of the reading, and so are the errors. -/
structure Placed (source : String) (r : Reading) : Prop where
  here : (ofSource source).Reaches r.scan
  errors : ∀ e ∈ r.scan.errors, e.span.Fits source
  stack : StackPlaced source r.scan.pos r.nodes r.stack
  scripts : ∀ script ∈ r.scripts, script.Placed source ⟨0, r.scan.pos⟩
  styles : ∀ style ∈ r.styles, style.Placed source ⟨0, r.scan.pos⟩

theorem placed_start (source : String) : (start source).Placed source where
  here := .refl _
  errors := nofun
  stack := .top nofun
  scripts := nofun
  styles := nofun

/-- Reading goes on from a later place with another stack. -/
theorem Placed.move (placed : r.Placed source) (leads : r.scan.Leads source next.scan)
    (stack : StackPlaced source next.scan.pos next.nodes next.stack)
    (scripts : ∀ script ∈ next.scripts,
      script.Placed source ⟨r.scan.pos, next.scan.pos⟩ ∨ script ∈ r.scripts)
    (styles : ∀ style ∈ next.styles,
      style.Placed source ⟨r.scan.pos, next.scan.pos⟩ ∨ style ∈ r.styles) :
    next.Placed source where
  here := placed.here.trans leads.reached
  errors := leads.noted placed.errors
  stack := stack
  scripts script kept := by
    rcases scripts script kept with new | old
    · exact new.mono ⟨Nat.zero_le _, Nat.le_refl _⟩
    · exact (placed.scripts script old).mono (inside_further _ leads.reached.pos_le)
  styles style kept := by
    rcases styles style kept with new | old
    · exact new.mono ⟨Nat.zero_le _, Nat.le_refl _⟩
    · exact (placed.styles style old).mono (inside_further _ leads.reached.pos_le)

theorem Placed.opens (placed : r.Placed source) (opens : r.Opens source next) :
    next.Placed source := by
  have leads := opens.leads
  have further := leads.reached.pos_le
  have cut := (placed.here.trans leads.reached).isCut
  cases opens with
  | node _ _ new _ =>
    exact placed.move leads (placed.stack.add new further cut) (fun _ => .inr) fun _ => .inr
  | construct _ starts new _ =>
    exact placed.move leads (placed.stack.enter starts new) (fun _ => .inr) fun _ => .inr
  | script _ _ _ new _ grown =>
    refine placed.move leads (placed.stack.mono further cut) (fun script here => ?_) fun _ => .inr
    rcases List.mem_cons.1 (grown.subset here) with rfl | old
    · exact .inl new
    · exact .inr old
  | style _ _ _ new =>
    refine placed.move leads (placed.stack.mono further cut) (fun _ => .inr) fun style here => ?_
    rcases List.mem_cons.1 here with rfl | old
    · exact .inl new
    · exact .inr old
  | error _ _ =>
    exact placed.move leads (placed.stack.mono further cut) (fun _ => .inr) fun _ => .inr

section

-- the innermost open construct is dealt with
variable {frame : Frame} {outer : List Frame} (placed : r.Placed source)
  (top : r.stack = frame :: outer)

theorem scan_leave (r : Reading) (frame : Frame) (outer : List Frame) :
    (r.leave frame outer).scan = (close r.scan r.nodes.reverse frame.construct).scan := by
  unfold Reading.leave
  split
  · rename_i closing
    rw [closing]
    rfl
  · rename_i closing
    rw [closing]
    rfl

include placed top

theorem Placed.leads_leave : r.scan.Leads source (r.leave frame outer).scan := by
  have stack := placed.stack
  rw [top] at stack
  rw [scan_leave]
  cases stack with
  | frame construct _ _ => exact leads_close ⟨placed.here, construct.began.1⟩ r.nodes.reverse

theorem Placed.closing :
    (close r.scan r.nodes.reverse frame.construct).Placed source frame.construct.start := by
  have stack := placed.stack
  rw [top] at stack
  cases stack with
  | frame construct inner _ =>
    exact placed_close placed.here construct
      fun node member => inner node (List.mem_reverse.1 member)

theorem Placed.leave : (r.leave frame outer).Placed source := by
  have stack := placed.stack
  rw [top] at stack
  cases stack with
  | frame construct inner around =>
    have leads := placed.leads_leave top
    rw [scan_leave] at leads
    have further := Nat.le_trans construct.began.1.ordered leads.reached.pos_le
    have cut := (placed.here.trans leads.reached).isCut
    have closing := placed.closing top
    unfold Reading.leave
    generalize close r.scan r.nodes.reverse frame.construct = result at closing leads further cut ⊢
    cases closing with
    | goesOn same new =>
      exact placed.move leads (.frame new nofun (same ▸ around)) (fun _ => .inr) fun _ => .inr
    | closed _ new =>
      exact placed.move leads (around.add new further cut) (fun _ => .inr) fun _ => .inr

end

/-- What has been read stays placed with every step. -/
theorem Placed.step (placed : r.Placed source) (stepped : r.step = some next) :
    next.Placed source := by
  rcases step_cases placed.here stepped with ⟨frame, outer, top, rfl⟩ | ⟨opens, _⟩
  · exact placed.leave top
  · exact placed.opens opens

theorem Placed.leads_step (placed : r.Placed source) (stepped : r.step = some next) :
    r.scan.Leads source next.scan := by
  rcases step_cases placed.here stepped with ⟨frame, outer, top, rfl⟩ | ⟨opens, _⟩
  · exact placed.leads_leave top
  · exact opens.leads

theorem Placed.leads_finish (placed : r.Placed source) : r.scan.Leads source r.finish.scan := by
  fun_induction Reading.finish r with
  | case1 r ended => exact .refl _
  | case2 r next stepped shorter ih =>
    exact (placed.leads_step stepped).trans (ih (placed.step stepped))

theorem Placed.finish (placed : r.Placed source) : r.finish.Placed source := by
  fun_induction Reading.finish r with
  | case1 r ended => exact placed
  | case2 r next stepped shorter ih => exact ih (placed.step stepped)

/-- When no step is left, all of the source has been read and nothing is open. -/
theorem ended_of_step (ended : r.step = none) : r.scan.rest = [] ∧ r.stack = [] := by
  unfold Reading.step at ended
  split at ended
  · split at ended
    · cases ended
    · rename_i top
      split at ended
      · rename_i atEnd
        exact ⟨List.isEmpty_iff.1 atEnd, top⟩
      · cases ended
  · cases ended

theorem step_finish (r : Reading) : r.finish.step = none := by
  fun_induction Reading.finish r with
  | case1 r ended => exact ended
  | case2 r next stepped shorter ih => exact ih

/-- The pass ends at the end of the source. -/
theorem Placed.pos_of_step (placed : r.Placed source) (ended : r.step = none) :
    r.scan.pos = source.utf8ByteSize :=
  placed.here.pos_of_nil (ended_of_step ended).1

/-- What has been read when the pass ends makes a placed document. -/
theorem Placed.document (placed : r.Placed source) (ended : r.step = none) :
    Document.Placed source
      ⟨⟨0, source.utf8ByteSize⟩, r.moduleScript, r.instanceScript, r.styles.reverse,
        r.nodes.reverse⟩ := by
  have stack := placed.stack
  rw [(ended_of_step ended).2] at stack
  rw [← placed.pos_of_step ended]
  cases stack with
  | top nodes =>
    exact
      { span := congrArg _ (placed.pos_of_step ended)
        fragment := fun node member => nodes node (List.mem_reverse.1 member)
        scripts := placed.scripts
        styles := fun style member => placed.styles style (List.mem_reverse.1 member) }

end Reading

/-- A document is placed in its source, with or without errors: every expression in it is the text
at its span and has no white space around it, texts and comments are what the source has there,
and every span lies within that of the part around it. -/
theorem document_placed (source : String) : (parse source).document.Placed source :=
  (Reading.placed_start source).finish.document (Reading.step_finish _)

end TypedSvelte.Markup
