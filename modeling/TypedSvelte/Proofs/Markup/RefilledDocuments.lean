import TypedSvelte.Proofs.Markup.Refilling

/-!
# Documents with other fillers

With other text in place of a filler, the pass comes by a reading that differs only in the filler and
in the offsets behind it. The rest of the source is the same, so the readings with which the pass
ends differ in nothing else (`refilled_of_admits`). What the template refers to lies before or behind
the filler, and so do the scripts.
-/
namespace TypedSvelte.Markup

open Scan

variable {source new : String}

namespace Reading

variable {r next : Reading} {filler : Filler}

/-- What is noted by a step was read behind its beginning. -/
theorem marks_step (takes : r.Takes next) {mark : Mark} (member : mark ∈ next.marks) :
    mark ∈ r.marks ∨ r.scan.pos ≤ mark.span.start ∧ mark.span.start ≤ mark.span.stop := by
  have behind {t : Scan} {mark : Mark} (between : mark.Between r.scan t) :
      r.scan.pos ≤ mark.span.start ∧ mark.span.start ≤ mark.span.stop :=
    ⟨between.range.1, between.range.2.1⟩
  cases takes with
  | comment ahead => exact (r.notes_readComment mark member).imp_right behind
  | element ahead letter =>
    rw [readElement_eq] at member
    split at member
    · exact (marks_readRaw member).symm.imp_right fun here => behind (between_openingTag here)
    · split at member
      · refine (notes_add (fun mark here => ?_) mark member).imp_right behind
        rw [Node.marks, marksOf, List.append_nil] at here
        exact between_openingTag here
      · refine (notes_enter (fun mark here => ?_) mark member).imp_right behind
        exact between_openingTag here
  | block ahead => exact (r.notes_readBlock mark member).imp_right behind
  | tag ahead => exact (r.notes_readTag mark member).imp_right behind
  | mustache ahead other => exact (r.notes_readMustache mark member).imp_right behind
  | text ahead goesOn => exact (r.notes_readText mark member).imp_right behind
  | closer top closer => exact (notes_leave top mark member).imp_right behind
  | stray top more closer => exact (r.notes_strayCloser mark member).imp_right behind

private theorem marks_finish (placed : r.Placed source) {mark : Mark} (member : mark ∈ r.finish.marks) :
    mark ∈ r.marks ∨ r.scan.pos ≤ mark.span.start ∧ mark.span.start ≤ mark.span.stop := by
  fun_induction finish r with
  | case1 r ended => exact .inl member
  | case2 r next stepped shorter ih =>
    have further := (placed.leads_step stepped).reached.pos_le
    rcases ih (placed.step stepped) member with old | ⟨behind, ordered⟩
    · exact marks_step (takes_of_step stepped) old
    · exact .inr ⟨Nat.le_trans further behind, ordered⟩

/-- So was a script that is set aside. -/
theorem scripts_step (placed : r.Placed source) (stepped : r.step = some next) {script : Script}
    (member : script ∈ next.scripts) : script ∈ r.scripts ∨ r.scan.pos ≤ script.span.start := by
  rcases step_cases placed.here stepped with ⟨frame, outer, top, rfl⟩ | ⟨opens, _⟩
  · have moves := r.moves_leave frame outer
    rw [scripts, moves.moduleScript, moves.instanceScript] at member
    exact .inl member
  · cases opens with
    | node _ _ _ _ | construct _ _ _ _ | style _ _ _ _ | error _ _ => exact .inl member
    | script _ _ _ new _ grown =>
      rcases List.mem_cons.1 (grown.subset member) with rfl | old
      · exact .inr new.span.inside.1
      · exact .inl old

private theorem scripts_finish (placed : r.Placed source) {script : Script}
    (member : script ∈ r.finish.scripts) :
    script ∈ r.scripts ∨ r.scan.pos ≤ script.span.start := by
  fun_induction finish r with
  | case1 r ended => exact .inl member
  | case2 r next stepped shorter ih =>
    have further := (placed.leads_step stepped).reached.pos_le
    rcases ih (placed.step stepped) member with old | behind
    · exact scripts_step placed stepped old
    · exact .inr (Nat.le_trans further behind)

theorem Reached.apart {n : Nat} (reached : Reached source n r) : Apart source r := by
  induction reached with
  | start => exact apart_start source
  | step _ stepped ih => exact apart_step ih stepped

/-- A text from which the characters ahead are exchanged for others. -/
theorem splice_ahead {s : Scan} (reached : (ofSource source).Reaches s) {data after : List Char}
    (ahead : s.rest = data ++ after) (new : String) :
    splice source ⟨s.pos, s.pos + byteSize data⟩ new =
      String.ofList (swapEnd s.rest.length (new.toList ++ after) source.toList) := by
  obtain ⟨passed, whole, place⟩ := reached
  change source.toList = passed ++ s.rest at whole
  have here : s.pos = (String.ofList passed).utf8ByteSize :=
    place.trans ((Nat.zero_add _).trans (utf8ByteSize_ofList _).symm)
  have parts : source = String.ofList passed ++ String.ofList data ++ String.ofList after := by
    rw [← String.ofList_append, ← String.ofList_append, List.append_assoc, ← ahead, ← whole]
    exact String.ofList_toList.symm
  rw [whole, swapEnd_append, here, ← utf8ByteSize_ofList data]
  conv_lhs => rw [parts]
  rw [splice_parts, String.ofList_append, String.ofList_append, String.ofList_toList,
    String.append_assoc]

section

variable {opened : Scan} {data after new : List Char} {hole : Nat}
  (overlooks : Overlooks r next opened data after new hole) (placed : r.Placed source)
  (stepped : r.step = some next)

include overlooks placed stepped

/-- What the template refers to lies before the filler or behind it. -/
theorem Overlooks.spares_mark (apart : Apart source r) {mark : Mark}
    (member : mark ∈ next.finish.marks) :
    Span.Spares ⟨opened.pos, opened.pos + byteSize data⟩ mark.span := by
  have further := overlooks.reached.pos_le
  have behind := overlooks.behind
  rcases marks_finish (placed.step stepped) member with noted | ⟨later, ordered⟩
  · have earlier : mark.span.start ≤ mark.span.stop ∧ mark.span.stop ≤ opened.pos := by
      rcases overlooks.marks mark noted with old | new
      · obtain ⟨_, ordered, stop⟩ := (apart.marks mark old).range
        exact ⟨ordered, Nat.le_trans stop further⟩
      · exact new.range.2
    exact .inl ⟨Nat.le_trans earlier.1 earlier.2, earlier.2⟩
  · exact .inr ⟨Nat.le_trans behind later, Nat.le_trans behind (Nat.le_trans later ordered)⟩

/-- So does each script. -/
theorem Overlooks.spares_script {script : Script} (member : script ∈ next.finish.scripts) :
    Span.Spares ⟨opened.pos, opened.pos + byteSize data⟩ script.span := by
  have further := overlooks.reached.pos_le
  have behind := overlooks.behind
  have lies := ((placed.step stepped).finish.scripts script member).span
  rcases scripts_finish (placed.step stepped) member with old | later
  · rw [scripts, overlooks.moves.moduleScript, overlooks.moves.instanceScript] at old
    have before := (placed.scripts script old).span.inside.2
    have stop : script.span.stop ≤ opened.pos := Nat.le_trans before further
    exact .inl ⟨Nat.le_trans lies.fits.ordered stop, stop⟩
  · exact .inr ⟨Nat.le_trans behind later,
      Nat.le_trans behind (Nat.le_trans later lies.fits.ordered)⟩

end

end Reading

theorem ValuePart.moved_id (part : ValuePart) : part.moved id = part := by
  cases part <;> rfl

theorem Attribute.moved_id (a : Attribute) : a.moved id = a := by
  have parts (value : List ValuePart) : value.map (ValuePart.moved id) = value :=
    (List.map_congr_left fun part _ => part.moved_id).trans (List.map_id _)
  cases a with
  | plain a => exact congrArg (fun value => Attribute.plain { a with value }) (parts a.value)
  | shorthand e | spread e => rfl
  | directive d =>
    exact congrArg (fun value => Attribute.directive { d with value }) (congrFun Option.map_id d.value)

theorem Script.moved_id (script : Script) : script.moved id = script := by
  have attributes : script.attributes.map (Attribute.moved id) = script.attributes :=
    (List.map_congr_left fun a _ => a.moved_id).trans (List.map_id _)
  unfold Script.moved
  rw [attributes]
  rfl

private theorem map_moved_id (script? : Option Script) : script?.map (Script.moved id) = script? := by
  cases script? with
  | none => rfl
  | some script => exact congrArg some script.moved_id

/-- With `new` in place of the span the source is still accepted. Its document differs only in what
begins at the hole and in offsets, and what it refers to does not touch the span. -/
structure Refilled (source : String) (content : Span) (new : String) (hole : Nat) : Prop where
  fits : IsCut source content.start
  ends : IsCut source content.stop
  ordered : content.start ≤ content.stop
  marks : ∀ mark ∈ marksOf (parse source).document.fragment, content.Spares mark.span
  scripts : ∀ script, (parse source).document.moduleScript = some script ∨
    (parse source).document.instanceScript = some script → content.Spares script.span
  accepted : (parse (splice source content new)).errors = []
  fragment : movedNodes id hole (parse (splice source content new)).document.fragment =
    movedNodes (content.displace new.utf8ByteSize) hole (parse source).document.fragment
  moduleScript : (parse (splice source content new)).document.moduleScript =
    (parse source).document.moduleScript.map (Script.moved (content.displace new.utf8ByteSize))
  instanceScript : (parse (splice source content new)).document.instanceScript =
    (parse source).document.instanceScript.map (Script.moved (content.displace new.utf8ByteSize))

private theorem Refilled.of_finish {content : Span} {hole : Nat} (fits : IsCut source content.start)
    (ends : IsCut source content.stop) (ordered : content.start ≤ content.stop)
    (marks : ∀ mark ∈ (Reading.start source).finish.marks, content.Spares mark.span)
    (scripts : ∀ script ∈ (Reading.start source).finish.scripts, content.Spares script.span)
    (accepted : (Reading.start source).finish.scan.errors = [])
    (same : (Reading.start (splice source content new)).finish.moved id hole =
      (Reading.start source).finish.moved (content.displace new.utf8ByteSize) hole) :
    Refilled source content new hole where
  fits := fits
  ends := ends
  ordered := ordered
  marks mark member := marks mark (List.mem_append_right _ (mem_marksOf_reverse.1 member))
  scripts script kept := by
    apply scripts script
    rcases kept with isModule | isInstance
    · exact List.mem_append_left _ (Option.mem_toList.2 isModule)
    · exact List.mem_append_right _ (Option.mem_toList.2 isInstance)
  accepted := by
    have errors := congrArg (·.scan.errors) same
    simp only [Reading.moved, Scan.moved, accepted, List.map_nil, List.map_eq_nil_iff] at errors
    exact List.reverse_eq_nil_iff.2 errors
  fragment := by
    have nodes := congrArg (·.nodes.reverse) same
    simp only [Reading.moved, movedNodes_eq, ← List.map_reverse] at nodes
    rw [movedNodes_eq, movedNodes_eq]
    exact nodes
  moduleScript := (map_moved_id _).symm.trans (congrArg (·.moduleScript) same)
  instanceScript := (map_moved_id _).symm.trans (congrArg (·.instanceScript) same)

/-- A filler of a source without errors was read by a step of the pass. -/
theorem exists_written {filler : Filler} (accepted : (parse source).errors = [])
    (member : filler ∈ (parse source).document.fillers) :
    ∃ n before after, Reading.Reached source n before ∧ before.step = some after ∧
      before.Writes after filler := by
  have noErrors : (Reading.start source).finish.scan.errors = [] :=
    List.reverse_eq_nil_iff.1 accepted
  have read : filler ∈ (Reading.start source).finish.fillers := by
    rcases List.mem_append.1 member with inFragment | inStyles
    · exact List.mem_append_left _ (List.mem_append_right _ (mem_fillersOf_reverse.1 inFragment))
    · apply List.mem_append_right
      rw [← List.mem_reverse, ← List.map_reverse]
      exact inStyles
  have begins : Reading.Reached source 0 (Reading.start source) := .start
  obtain ⟨last, toLast⟩ := begins.finish
  exact Reading.exists_writes toLast noErrors read

/-- Any filler of a source without errors can be exchanged for any that it admits. -/
theorem refilled_of_admits {filler : Filler} (accepted : (parse source).errors = [])
    (member : filler ∈ (parse source).document.fillers) (admits : filler.Admits new) :
    ∃ hole, Refilled source filler.content new hole := by
  have noErrors : (Reading.start source).finish.scan.errors = [] :=
    List.reverse_eq_nil_iff.1 accepted
  obtain ⟨n, before, after, reached, stepped, writes⟩ := exists_written accepted member
  have placed := reached.placed
  have placedNext := placed.step stepped
  have whole : (Reading.start source).finish = after.finish :=
    (Reading.Reached.step reached stepped).finish_eq
  have later : after.scan.errors = [] := by
    have kept := placedNext.leads_finish.kept
    rw [← whole, noErrors] at kept
    exact List.suffix_nil.1 kept
  have earlier : before.scan.errors = [] := by
    have kept := (placed.leads_step stepped).kept
    rw [later] at kept
    exact List.suffix_nil.1 kept
  obtain ⟨opened, data, rest, hole, overlooks, content⟩ :=
    writes.overlooks placed earlier later admits
  obtain ⟨other, takes, behind, moved⟩ := overlooks.again
  have opening := placed.here.trans overlooks.reached
  have spliced := Reading.splice_ahead opening overlooks.ahead new
  have swapped := reached.swap (List.length_pos_iff.2 overlooks.filled)
    overlooks.reached.length_le earlier overlooks.ends
  rw [← spliced, ← content] at swapped
  have again := Reading.Reached.step swapped (Reading.step_of_takes takes)
  have displaces : opened.displace data new.toList = filler.content.displace new.utf8ByteSize := by
    unfold Scan.displace
    rw [content, byteSize_toList]
  have start : filler.content.start = opened.pos := congrArg Span.start content
  have stop : filler.content.stop = opened.pos + byteSize data := congrArg Span.stop content
  have further : max (filler.content.start + 1) filler.content.stop ≤ after.scan.pos := by
    rw [start, stop]
    exact overlooks.behind
  -- the rest of the source is the same, read at the displaced place
  have same : (Reading.start (splice source filler.content new)).finish.moved id hole =
      (Reading.start source).finish.moved (filler.content.displace new.utf8ByteSize) hole := by
    have begins := overlooks.begins
    calc
      _ = other.finish.moved id hole := by rw [again.finish_eq]
      _ = (other.moved id hole).finish :=
        (Reading.finish_moved again.placed (relocates_id _) behind).symm
      _ = (after.moved (filler.content.displace new.utf8ByteSize) hole).finish := by
        rw [moved, displaces]
      _ = after.finish.moved (filler.content.displace new.utf8ByteSize) hole :=
        Reading.finish_moved placedNext (Span.relocates_displace further) (by omega)
      _ = _ := by rw [whole]
  refine ⟨hole, .of_finish ?_ ?_ ?_ ?_ ?_ noErrors same⟩
  · rw [start]
    exact opening.isCut
  · rw [stop, ← pos_skip_past overlooks.ahead]
    exact (opening.trans (reaches_skip _ _)).isCut
  · rw [start, stop]
    exact Nat.le_add_right _ _
  · intro mark member
    rw [content]
    exact overlooks.spares_mark placed stepped reached.apart (whole ▸ member)
  · intro script member
    rw [content]
    exact overlooks.spares_script placed stepped (whole ▸ member)

end TypedSvelte.Markup
