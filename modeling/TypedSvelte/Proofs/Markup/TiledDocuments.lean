import Mathlib.Data.List.Pairwise
import TypedSvelte.Proofs.Markup.PlacedDocuments

/-!
# Accepted documents leave nothing out

As long as no error has been noted, what stands at the top of a component covers the source up to
the place of the reading, and the nodes of an open construct stand in a row that ends there
(`StackTiled`). Characters are passed for nothing only with an error, and errors are never dropped, so
a source that is read without an error is covered from end to end.
-/
namespace TypedSvelte

/-- Of spans that cover a range and are not empty, no two begin at the same offset. -/
theorem Tiles.eq_of_start {low high : Nat} {row : List Span} (tiles : Tiles low row high)
    (filled : ∀ s ∈ row, s.start < s.stop) {a b : Span} (inRow : a ∈ row) (alsoInRow : b ∈ row)
    (same : a.start = b.start) : a = b := by
  have : Std.Symm fun a b : Span => a.start = b.start → a = b :=
    ⟨fun _ _ unique same => (unique same.symm).symm⟩
  have unique : row.Pairwise fun a b => a.start = b.start → a = b :=
    (tiles.increasing filled).imp fun before same => absurd same (Nat.ne_of_lt before)
  exact unique.forall_of_forall (fun _ _ _ => rfl) inRow alsoInRow same

/-- Spans that cover a range and are not empty are what sorting by starts gives. -/
theorem Tiles.sorted {low high : Nat} {row spans : List Span} (tiles : Tiles low row high)
    (filled : ∀ s ∈ row, s.start < s.stop) (same : row.Perm spans) :
    spans.mergeSort (fun a b => a.start ≤ b.start) = row := by
  have arranged := (List.mergeSort_perm spans fun a b => a.start ≤ b.start).trans same.symm
  have sorted := @List.pairwise_mergeSort _ (fun (a b : Span) => decide (a.start ≤ b.start))
    (fun a b c => by simpa using Nat.le_trans) (fun a b => by simpa using Nat.le_total _ _) spans
  refine List.Perm.eq_of_pairwise ?_ (sorted.imp of_decide_eq_true)
    ((tiles.increasing filled).imp Nat.le_of_lt) arranged
  intro a b inSorted inRow before after
  exact tiles.eq_of_start filled (arranged.subset inSorted) inRow (Nat.le_antisymm before after)

namespace Markup

open Scan Reading

variable {source : String}

/-- Up to the offset `stop`, what stands at the top covers the source, `aside` being the spans set
aside, and the nodes of each open construct stand in a row. -/
inductive StackTiled (aside : List Span) : Nat → List Node → List Frame → Prop
  | top {stop : Nat} {nodes : List Node} {row : List Span}
      (all : row.Perm (aside ++ nodes.map Node.span)) (tiles : Tiles 0 row stop)
      (filled : ∀ s ∈ row, s.start < s.stop) (joined : ∀ node ∈ nodes, node.Joined) :
      StackTiled aside stop nodes []
  | frame {stop : Nat} {nodes : List Node} {frame : Frame} {outer : List Frame} {low : Nat}
      (row : Tiles low (nodes.reverse.map Node.span) stop) (joined : ∀ node ∈ nodes, node.Joined)
      (opened : frame.construct.start < stop)
      (held : ∀ branch ∈ frame.construct.branches, Strung branch)
      (around : StackTiled aside frame.construct.start frame.before outer) :
      StackTiled aside stop nodes (frame :: outer)

namespace StackTiled

variable {aside : List Span} {stop later : Nat} {nodes : List Node} {stack : List Frame}

/-- A node that begins at the offset `stop` goes on with the row. -/
theorem add {node : Node} (tiled : StackTiled aside stop nodes stack)
    (span : node.span = ⟨stop, later⟩) (joined : node.Joined) (further : stop < later) :
    StackTiled aside later (node :: nodes) stack := by
  have starts : node.span.start = stop := congrArg Span.start span
  have stops : node.span.stop = later := congrArg Span.stop span
  have ordered : node.span.start < node.span.stop := by rw [starts, stops]; exact further
  cases tiled with
  | top all tiles filled old =>
    have more := tiles.snoc starts (Nat.le_of_lt ordered)
    rw [stops] at more
    refine .top ?_ more ?_ (List.forall_mem_cons.2 ⟨joined, old⟩)
    · rw [List.map_cons]
      exact ((List.perm_append_singleton _ _).trans (all.cons _)).trans List.perm_middle.symm
    · exact List.forall_mem_append.2 ⟨filled, List.forall_mem_singleton.2 ordered⟩
  | frame row old opened held around =>
    have more := row.snoc starts (Nat.le_of_lt ordered)
    rw [stops] at more
    rename_i low
    have whole : Tiles low ((node :: nodes).reverse.map Node.span) later := by
      rw [List.reverse_cons, List.map_append]
      exact more
    exact .frame whole (List.forall_mem_cons.2 ⟨joined, old⟩) (Nat.lt_trans opened further) held around

/-- A construct that begins at the offset `stop` has no nodes at first. -/
theorem enter {construct : Construct} (tiled : StackTiled aside stop nodes stack)
    (starts : construct.start = stop) (further : stop < later)
    (held : ∀ branch ∈ construct.branches, Strung branch) :
    StackTiled aside later [] (⟨construct, nodes⟩ :: stack) :=
  .frame rfl nofun (starts ▸ further) held (starts ▸ tiled)

/-- What is set aside at the top covers the source like a node. -/
theorem setAside {others : List Span} {s : Span} (tiled : StackTiled aside stop nodes [])
    (span : s = ⟨stop, later⟩) (further : stop < later) (more : others.Perm (s :: aside)) :
    StackTiled others later nodes [] := by
  subst span
  cases tiled with
  | top all tiles filled joined =>
    refine .top ?_ (tiles.snoc (s := ⟨stop, later⟩) rfl (Nat.le_of_lt further)) ?_ joined
    · have arranged := (List.perm_append_singleton _ _).trans (all.cons (Span.mk stop later))
      exact arranged.trans (more.symm.append_right _)
    · exact List.forall_mem_append.2 ⟨filled, List.forall_mem_singleton.2 further⟩

end StackTiled

namespace Reading

variable {r next : Reading}

/-- The spans of the scripts and styles that have been set aside. -/
def aside (r : Reading) : List Span := r.scripts.map (·.span) ++ r.styles.map (·.span)

/-- What has been read leaves nothing out of the source before the place of the reading. -/
structure Tiled (r : Reading) : Prop where
  stack : StackTiled r.aside r.scan.pos r.nodes r.stack
  scripts : ∀ script ∈ r.scripts, script.Tiled

private theorem tiled_start (source : String) : (start source).Tiled where
  stack := .top .nil rfl nofun nofun
  scripts := nofun

theorem Tiled.opens (tiled : r.Tiled) (opens : r.Opens source next)
    (further : r.scan.pos < next.scan.pos) (accepted : next.scan.errors = []) : next.Tiled := by
  cases opens with
  | node _ span _ joined => exact ⟨tiled.stack.add span joined further, tiled.scripts⟩
  | construct _ starts _ held => exact ⟨tiled.stack.enter starts further held, tiled.scripts⟩
  | @script _ script _ _ top _ span _ parts grown =>
    have stack := tiled.stack
    rw [top] at stack
    refine ⟨?_, fun other here => ?_⟩
    · change StackTiled _ _ r.nodes r.stack
      rw [top]
      exact stack.setAside span further ((grown.map _).append_right _)
    · rcases List.mem_cons.1 (grown.subset here) with rfl | old
      · exact parts
      · exact tiled.scripts other old
  | style top _ span _ =>
    have stack := tiled.stack
    rw [top] at stack
    refine ⟨?_, tiled.scripts⟩
    change StackTiled _ _ r.nodes r.stack
    rw [top]
    exact stack.setAside span further List.perm_middle
  | error _ noted => exact absurd accepted noted

theorem Tiled.leave {frame : Frame} {outer : List Frame} (tiled : r.Tiled)
    (placed : r.Placed source) (top : r.stack = frame :: outer) : (r.leave frame outer).Tiled := by
  have stack := tiled.stack
  rw [top] at stack
  cases stack with
  | frame row joined opened held around =>
    have closing := placed.closing top
    have onward := (reaches_close r.scan r.nodes.reverse frame.construct).pos_le
    have strung : Strung r.nodes.reverse :=
      ⟨⟨_, _, row⟩, fun node member => joined node (List.mem_reverse.1 member)⟩
    have parts := joined_close (s := r.scan) held strung
    unfold Reading.leave
    generalize close r.scan r.nodes.reverse frame.construct = result at closing onward parts ⊢
    have further := Nat.lt_of_lt_of_le opened onward
    cases closing with
    | goesOn same _ =>
      cases parts with
      | goesOn holds =>
        exact ⟨.frame rfl nofun (same ▸ further) holds (same ▸ around), tiled.scripts⟩
    | closed span _ =>
      cases parts with
      | closed whole => exact ⟨around.add span whole further, tiled.scripts⟩

/-- While no error is noted, nothing is left out with any step. -/
theorem Tiled.step (tiled : r.Tiled) (placed : r.Placed source) (stepped : r.step = some next)
    (accepted : next.scan.errors = []) : next.Tiled := by
  rcases step_cases placed.here stepped with ⟨frame, outer, top, rfl⟩ | ⟨opens, further⟩
  · exact tiled.leave placed top
  · exact tiled.opens opens further accepted

theorem Tiled.finish (tiled : r.Tiled) (placed : r.Placed source)
    (accepted : r.finish.scan.errors = []) : r.finish.Tiled := by
  fun_induction Reading.finish r with
  | case1 r ended => exact tiled
  | case2 r next stepped shorter ih =>
    have further := placed.step stepped
    have kept := further.leads_finish.kept
    rw [accepted] at kept
    exact ih (tiled.step placed stepped (List.suffix_nil.1 kept)) further accepted

end Reading

/-- The document of a source without errors leaves nothing out: what stands at its top covers the
source from end to end, the parts of each script cover the script, and at any depth each node begins
where the one before it ends and lies within its parent. -/
theorem document_tiled {source : String} (accepted : (parse source).errors = []) :
    Tiles 0 (parse source).document.regions source.utf8ByteSize ∧
      (∀ script ∈ (parse source).document.scripts, script.Tiled) ∧
      ∀ node ∈ (parse source).document.fragment,
        node.Joined ∧ node.Placed source ⟨0, source.utf8ByteSize⟩ := by
  have placed := Reading.placed_start source
  have ended := Reading.step_finish (Reading.start source)
  have tiled := (Reading.tiled_start source).finish placed (List.reverse_eq_nil_iff.1 accepted)
  have stack := tiled.stack
  rw [(Reading.ended_of_step ended).2, placed.finish.pos_of_step ended] at stack
  cases stack with
  | top all tiles filled joined =>
    refine ⟨?_, tiled.scripts, fun node member => ⟨?_, ?_⟩⟩
    · have styles := ((List.reverse_perm (start source).finish.styles).map (·.span)).symm
      have nodes := ((List.reverse_perm (start source).finish.nodes).map Node.span).symm
      have whole := all.trans ((styles.append_left _).append nodes)
      rw [Document.regions]
      exact (tiles.sorted filled whole).symm ▸ tiles
    · exact joined node (List.mem_reverse.1 member)
    · exact (placed.finish.document ended).fragment node member

/-- A script, white space and an element with a block in it, side by side. -/
theorem document_tiled_greeting :
    (parse "<script>let é;</script>\n<p>\x7b#key é\x7d\x7b/key\x7d</p>").errors = [] ∧
      (parse "<script>let é;</script>\n<p>\x7b#key é\x7d\x7b/key\x7d</p>").document.scripts.map
        (·.span) = [⟨0, 24⟩] ∧
      Tiles 0 (parse "<script>let é;</script>\n<p>\x7b#key é\x7d\x7b/key\x7d</p>").document.regions
        47 := by
  have accepted :
      (parse "<script>let é;</script>\n<p>\x7b#key é\x7d\x7b/key\x7d</p>").errors = [] := by
    decide +kernel
  have size : "<script>let é;</script>\n<p>\x7b#key é\x7d\x7b/key\x7d</p>".utf8ByteSize = 47 := by
    decide +kernel
  exact ⟨accepted, by decide +kernel, size ▸ (document_tiled accepted).1⟩

end Markup

end TypedSvelte
