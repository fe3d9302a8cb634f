import Mathlib.Tactic.ByContra
import TypedSvelte.Proofs.Component.Refusals
import TypedSvelte.Proofs.Kit.Augmentation
import TypedSvelte.Transform.File

/-!
# The offsets that are recorded

An insertion is recorded at an offset of the outline or at one that is found in the source. The
outline counts from behind a byte order mark, so with a mark in front its offsets are not those of
the source. They never lie past the end of the source, but they may fall inside a character, and
that is the only way in which transforming a file breaks down (`transformFile_breaks_iff`).
-/
namespace TypedSvelte.Script

def byteOrderMark : Char := '\uFEFF'

/-- The text that the offsets of an outline count in: the source without the byte order mark. -/
def unmarked (source : String) : String := String.ofList (withoutMark source.toList)

/-- Without a mark in front the outline counts in the source itself. -/
theorem unmarked_cases (source : String) :
    unmarked source = source ∨
      source.toList.head? = some byteOrderMark ∧
        source.utf8ByteSize = 3 + (unmarked source).utf8ByteSize := by
  unfold unmarked withoutMark
  split
  · rename_i rest chars
    refine .inr ⟨by rw [chars]; rfl, ?_⟩
    have whole : source = String.ofList ('\uFEFF' :: rest) := by
      rw [← chars, String.ofList_toList]
    calc source.utf8ByteSize
      _ = (String.ofList ('\uFEFF' :: rest)).utf8ByteSize := congrArg _ whole
      _ = 3 + (String.ofList rest).utf8ByteSize := by
        rw [utf8ByteSize_ofList, utf8ByteSize_ofList]
        rfl
  · exact .inl (String.ofList_toList)

end TypedSvelte.Script

namespace TypedSvelte.Kit

open Script

variable {source : String}

/-- The offset is a boundary of the source, or one of the text that the outline counts in. -/
def KnownCut (source : String) (offset : Nat) : Prop :=
  IsCut source offset ∨ IsCut (unmarked source) offset

theorem KnownCut.le {offset : Nat} (known : KnownCut source offset) :
    offset ≤ source.utf8ByteSize := by
  rcases known with cut | cut
  · exact cut.le
  · have bound := cut.le
    rcases unmarked_cases source with same | ⟨_, size⟩
    · rwa [same] at bound
    · omega

private theorem knownCut_paramEnd {low high : Nat} {p : Pattern}
    (accurate : p.Accurate (unmarked source) low high) : KnownCut source (paramEnd source p) := by
  rcases paramEnd_cases source p with ⟨target, defaulted, same⟩ | same | ⟨same, paren⟩
  · rw [same]
    exact .inr (accurate.target target defaulted).2.2
  · rw [same]
    exact .inr accurate.cuts.2
  · rw [same]
    exact .inl (cuts_of_slice? paren).1

private theorem knownCut_functionEntries {shape : FunctionShape} {isArrow : Bool}
    (accurate : shape.Accurate (unmarked source)) (param result : String) :
    ∀ e ∈ functionEntries source (.ofShape source shape isArrow) param result,
      KnownCut source e.position := by
  unfold functionEntries
  dsimp only [FunctionExport.ofShape]
  rcases params : shape.params with _ | ⟨p, _ | ⟨_, _⟩⟩
  · nofun
  · have single : p.Accurate (unmarked source) shape.start shape.bodyStart :=
      accurate.params p (params ▸ List.mem_cons_self)
    have atParam := knownCut_paramEnd single
    dsimp only
    split
    · exact List.forall_mem_cons.2
        ⟨.inr single.cuts.1, List.forall_mem_singleton.2 atParam⟩
    · refine List.forall_mem_cons.2 ⟨atParam, ?_⟩
      split
      · nofun
      · rename_i type close _ found
        exact List.forall_mem_singleton.2 (.inl (range_of_paramsClose? params found).2.2)
      · exact List.forall_mem_singleton.2 (.inr accurate.bodyCut)
  · nofun

/-- The texts for an export are recorded at offsets of the outline, or of the source. -/
theorem knownCut_entriesFor {item : Item} {name : String} {bound : Bound}
    (declares : (name, bound) ∈ item.bound)
    (accurate : bound.Accurate (unmarked source) item.span) (typing : Typing) :
    ∀ e ∈ entriesFor source typing (bound.shape source).1, KnownCut source e.position := by
  rcases bound with shape | d | isTyped | _
  · rcases typing with ⟨param, result⟩ | type
    · exact knownCut_functionEntries (accurate.function shape rfl) param result
    · nofun
  · obtain ⟨place, named⟩ := exists_place_of_mem_bound declares
    obtain ⟨_, cut, _⟩ := accurate.name place named
    rcases shape_variable_cases source d with ⟨shape, isArrow, isFunction, same⟩ | ⟨_, same⟩
    · rw [same]
      rcases typing with ⟨param, result⟩ | type
      · exact knownCut_functionEntries (accurate.function shape isFunction) param result
      · nofun
    · rw [same]
      rcases typing with ⟨param, result⟩ | type
      · nofun
      · unfold entriesFor
        dsimp only
        rw [named]
        cases d.initial with
        | none => nofun
        | some value => exact List.forall_mem_singleton.2 (.inr cut)
  · cases typing <;> nofun
  · cases typing <;> nofun

/-- The entries of the ledger are in order, and each types an export. -/
structure Typed (source : String) (exports : Exports) (ledger : Ledger) : Prop where
  increasing : Ledger.Increasing ledger.entries
  exported : ∀ e ∈ ledger.entries, ∃ name typing entry, exports.entries.get? name = some entry ∧
    e ∈ entriesFor source typing entry.shape

theorem Typed.applyRule {exports : Exports} {progress next : Progress} {rule : Rule}
    (typed : Typed source exports progress.ledger)
    (applied : applyRule source exports progress rule = .ok next) :
    Typed source exports next.ledger := by
  unfold Kit.applyRule at applied
  split at applied
  · cases applied
    exact typed
  · rename_i entry found
    split at applied
    · cases applied
      exact typed
    · obtain ⟨ledger, annotated, applied⟩ := exists_of_bind_ok applied
      rw [annotate_eq] at annotated
      obtain ⟨increasing, only⟩ := Ledger.entries_of_insertAll annotated typed.increasing
      have grown : Typed source exports ledger := by
        refine ⟨increasing, fun e member => ?_⟩
        rcases only e member with added | before
        · exact ⟨rule.name, rule.typing, entry, found, added⟩
        · exact typed.exported e before
      split at applied <;> cases applied <;> exact grown

theorem typed_of_insertions {kind : FileKind} {exports : Exports} {ledger : Ledger}
    (recorded : insertions kind source exports = .ok ledger) : Typed source exports ledger := by
  unfold insertions at recorded
  cases applied : kind.rules.foldlM (applyRule source exports) ⟨.empty, []⟩ with
  | error refused =>
    rw [applied] at recorded
    cases recorded
  | ok progress =>
    rw [applied] at recorded
    cases recorded
    have start : Typed source exports .empty := ⟨.nil, nofun⟩
    exact of_foldlM_ok (P := fun progress => Typed source exports progress.ledger) applied
      start fun _ typed _ _ _ one => typed.applyRule one

def Records (path : FilePath) (places : KitPaths) (source : String) (offset : Nat) : Prop :=
  ∃ kind r ledger, Reading.Reads path places source kind r ∧
    insertions kind source r.exports = .ok ledger ∧ offset ∈ ledger.entries.map (·.position)

variable {path : FilePath} {places : KitPaths}

/-- Each offset that is recorded is a boundary of the source, or of the text behind the mark. -/
theorem Records.knownCut {offset : Nat}
    (accurate : ∀ outline, Script.parse (path.extension? == some "ts") source = .ok outline →
      outline.Accurate (unmarked source))
    (recorded : Records path places source offset) : KnownCut source offset := by
  obtain ⟨kind, r, ledger, reads, made, member⟩ := recorded
  obtain ⟨e, inLedger, rfl⟩ := List.mem_map.1 member
  obtain ⟨name, typing, entry, found, inEntries⟩ := (typed_of_insertions made).exported e inLedger
  have isAccurate := accurate _ (reads.typed ▸ reads.outline)
  rcases Subject.origin_of_exports reads.exports name entry found with
    free | ⟨item, inScript, bound, declares, same⟩
  · rw [free] at inEntries
    cases typing <;> cases inEntries
  · rw [same, Subject.boundEntry_shape, reads.text] at inEntries
    exact knownCut_entriesFor declares (isAccurate.declarations item inScript _ declares) typing e
      inEntries

theorem Reading.Reads.augment_ledger {kind : FileKind} {r : Reading}
    (reads : r.Reads path places source kind) {refused : LedgerError}
    (failed : insertions kind source r.exports = .error refused) :
    augment path source places = .error (.refused (.ledger refused)) := by
  obtain ⟨classified, _, rfl, typed, outline, exports⟩ := reads
  unfold augment
  rw [classified]
  dsimp only
  rw [← typed, outline]
  dsimp only
  rw [exports]
  change (do
    let ledger ← (insertions kind r.subject.source r.exports).mapError
      (Interruption.refused ∘ TransformError.ledger)
    _) = _
  rw [failed]
  rfl

/-- Typing a special file breaks down exactly if an offset that is recorded falls inside a
character. -/
theorem augment_breaks_iff
    (within : ∀ offset, Records path places source offset → offset ≤ source.utf8ByteSize) :
    augment path source places = .error .brokenCharacter ↔
      ∃ offset, Records path places source offset ∧ ¬IsCut source offset := by
  constructor
  · intro broken
    rcases augment_cases path source places with none | ⟨_, _, refused⟩ | ⟨kind, r, reads⟩
    · cases none.symm.trans broken
    · cases refused.symm.trans broken
    · cases made : insertions kind source r.exports with
      | error refused => cases (reads.augment_ledger made).symm.trans broken
      | ok ledger =>
        have outcome := reads.augment_eq made
        rw [broken] at outcome
        split at outcome
        · cases outcome
        · by_contra! allCut
          have cuts : ∀ e ∈ ledger.entries, IsCut source e.position := fun e member =>
            allCut e.position ⟨kind, r, ledger, reads, made, List.mem_map_of_mem member⟩
          obtain ⟨text, assembled, _⟩ := Ledger.exists_weave "" source String.empty_append.symm
            (typed_of_insertions made).increasing (fun _ _ => Nat.zero_le _) cuts
          change ledger.assemble? source = some text at assembled
          rw [assembled] at outcome
          cases outcome
  · rintro ⟨offset, recorded, broken⟩
    have inSource := within offset recorded
    obtain ⟨kind, r, ledger, reads, made, member⟩ := recorded
    obtain ⟨e, inLedger, rfl⟩ := List.mem_map.1 member
    have filled : ledger.entries ≠ [] := List.ne_nil_of_mem inLedger
    rw [reads.augment_eq made, if_neg (mt Ledger.isEmpty_iff.1 filled)]
    cases assembled : ledger.assemble? source with
    | none => rfl
    | some text =>
      have cut := Ledger.cuts_of_weave assembled e inLedger
      rw [Nat.min_eq_left inSource] at cut
      exact absurd cut broken

end TypedSvelte.Kit

namespace TypedSvelte

open Script Kit Component

/-- Offsets are recorded within the source. Transforming a file breaks down exactly if it is no
component, begins with a byte order mark, and one of the offsets that are recorded falls inside a
character. The outline need only have its declarations in place, counted from behind the mark. -/
theorem transformFile_breaks_iff {path : FilePath} {places : KitPaths} {source : String}
    (accurate : ∀ outline, Script.parse (path.extension? == some "ts") source = .ok outline →
      outline.Accurate (unmarked source)) :
    (∀ offset, Records path places source offset → offset ≤ source.utf8ByteSize) ∧
    (transformFile path source places = .error .brokenCharacter ↔
      path.extension? ≠ some "svelte" ∧ source.toList.head? = some byteOrderMark ∧
        ∃ offset, Records path places source offset ∧ ¬IsCut source offset) := by
  have within (offset : Nat) (recorded : Records path places source offset) :
      offset ≤ source.utf8ByteSize := (recorded.knownCut accurate).le
  refine ⟨within, ?_⟩
  unfold transformFile
  by_cases isComponent : path.extension? = some "svelte"
  · rw [if_pos (beq_iff_eq.2 isComponent)]
    refine iff_of_false ?_ fun ⟨other, _⟩ => other isComponent
    cases transpile source <;> nofun
  · rw [if_neg (mt beq_iff_eq.1 isComponent)]
    have fails : (augment path source places).map (Option.map Transformed.special) =
        .error .brokenCharacter ↔ augment path source places = .error .brokenCharacter := by
      cases augment path source places <;> simp [Except.map]
    rw [fails, augment_breaks_iff within]
    constructor
    · rintro ⟨offset, recorded, broken⟩
      refine ⟨isComponent, ?_, offset, recorded, broken⟩
      rcases unmarked_cases source with same | ⟨marked, _⟩
      · have known := recorded.knownCut accurate
        rw [KnownCut, same, or_self] at known
        exact absurd known broken
      · exact marked
    · exact fun ⟨_, _, broken⟩ => broken

/-- The parameter of this function ends at byte 26 of the text behind the mark. Byte 26 of the file
is inside its first letter. -/
theorem transformFile_breaks_iff_marked :
    let path := FilePath.ofText "src/params/word.ts"
    let source := "\uFEFFexport function match(éé) \x7b\x7d"
    transformFile path source .standard = .error .brokenCharacter ∧
      ∃ offset, Records path .standard source offset ∧ ¬IsCut source offset := by
  intro path source
  have placed : (Script.parse (path.extension? == some "ts") source).toOption.all (fun outline =>
      decide (outline.Accurate (unmarked source))) = true := by
    decide +kernel
  have accurate (outline : Outline)
      (parsed : Script.parse (path.extension? == some "ts") source = .ok outline) :
      outline.Accurate (unmarked source) := by
    rw [parsed] at placed
    exact of_decide_eq_true placed
  have broken : transformFile path source .standard = .error .brokenCharacter :=
    eq_error_of_check (by decide +kernel)
  exact ⟨broken, ((transformFile_breaks_iff accurate).2.1 broken).2.2⟩

/-- A byte order mark and a parameter that is not in ASCII break the file down. -/
theorem mark_breaks_character :
    transformFile (FilePath.ofText "src/routes/+page.ts")
      "\uFEFFexport function load(éé) \x7b\x7d" .standard = .error .brokenCharacter :=
  eq_error_of_check (by decide +kernel)

end TypedSvelte
