import TypedSvelte.Proofs.Command.SharedOutputs
import TypedSvelte.Proofs.Kit.Recognition
import TypedSvelte.Proofs.Workspace.Growth

/-!
# Runs that are repeated

A run leaves its code where a search finds it if the output directory is in the project. Files that
no code was written to become the same again (`transforms_of_kept`), and code that is found is never
taken for a component (`Project.special_of_generated`). So a second run changes something only where
code is taken for a special file and typed again, or where two codes went to one place
(`rerun_changes`). The code of a component is taken for a route module only if there is an at sign in
the name of the component; this happens (`rerun_grows`).
-/
namespace TypedSvelte.Command

open FilePath Kit

variable {here root : FilePath} {options : Options} {tree : Tree} {project : Project}

section

variable {P : Tree → Prop} (step : ∀ tree path text, P tree → P (Tree.write tree path text).1)

include step

/-- What writing preserves, a delivery preserves. -/
theorem deliver_preserves {emit : Bool} {directory? : Option FilePath} {reports : List FileReport}
    (before : P tree) : P (deliver emit directory? tree reports).tree := by
  induction reports generalizing tree with
  | nil => exact before
  | cons report rest ih =>
    rcases deliver_cases emit directory? tree report rest with ⟨_, same⟩ | ⟨code, _, written⟩
    · rw [same]
      exact ih before
    · have kept : P (writeCode directory? tree report.path code).1 := by
        cases directory? with
        | none => exact before
        | some directory => exact step tree _ code before
      rcases written with ⟨_, _, same, _⟩ | ⟨_, _, same⟩
      · rw [same]
        exact kept
      · rw [same]
        exact ih kept

private theorem run_preserves (before : P tree) : P (run here options tree).tree := by
  rw [run_eq]
  unfold runAt
  split
  · dsimp only
    split <;> exact before
  · split
    · unfold transformAll
      dsimp only
      split
      · rw [tree_conclude]
        exact deliver_preserves step before
      · exact before
    · exact before

end

private theorem grows_run : tree.Grows (run here options tree).tree :=
  run_preserves (fun written path text grows => grows.trans (written.grows_write path text))
    (.refl tree)

private theorem proper_run (proper : tree.Proper) : (run here options tree).tree.Proper :=
  run_preserves (fun _ path text proper => proper.write path text) proper

namespace Project

/-- A run on the project transforms the file at a path. -/
def Transforms (project : Project) (options : Options) (path : FilePath) (file : Transformed) :
    Prop :=
  ∃ paths, project.selection options = .ok paths ∧ path ∈ paths ∧
    project.outcome? (project.kitPaths options) path = some (.transformed file)

/-- The code of one file is where the file at a path is found when the run is repeated. That one is
taken for a special file and gets code that is not yet where it is written to. -/
structure Regenerates (before after : Project) (options : Options) (directory origin : FilePath)
    (file : Transformed) (path : FilePath) (augmented : Augmented) : Prop where
  first : before.Transforms options origin file
  written : before.target directory origin = Location.ofPath path
  again : after.Transforms options path (.special augmented)
  differs : after.tree.file? (after.target directory path) ≠ some augmented.text

private theorem selection_named (named : options.files ≠ []) :
    project.selection options = .ok (options.files.map project.root.join) :=
  if_neg (mt List.isEmpty_iff.1 named)

/-- The files of a run are those of the project, if those that are named are. -/
theorem contains_selection {paths : List FilePath} (proper : project.tree.Proper)
    (selected : project.selection options = .ok paths)
    (named : options.files ≠ [] → project.Contains paths) : project.Contains paths := by
  by_cases searches : options.files = []
  · obtain ⟨ignored, _, rfl⟩ := exists_candidates_of_selection searches selected
    exact contains_candidates proper ignored
  · exact named searches

private theorem mem_candidates (proper : project.tree.Proper) {ignored : List Glob} {path : FilePath} :
    path ∈ project.candidates ignored ↔
      ∃ names, project.Candidate ignored names ∧ project.pathOf names = path := by
  obtain ⟨candidates, _, complete, found⟩ := exists_candidates proper ignored
  rw [found, List.mem_map]
  simp only [complete]

section

variable {places : KitPaths} {path other : FilePath} {file : Transformed}

private theorem augment_of_special {source : String} {augmented : Augmented}
    (made : transformFile path source places = .ok (some (.special augmented))) :
    augment path source places = .ok (some augmented) := by
  unfold transformFile at made
  split at made
  · cases transpiled : Component.transpile source <;> rw [transpiled] at made <;> cases made
  · cases result : augment path source places with
    | error error =>
      rw [result] at made
      cases made
    | ok result? =>
      rw [result] at made
      cases result? <;> cases made
      rfl

/-- A special file has a name, and this is what makes it a route module. -/
theorem exists_name_special {augmented : Augmented}
    (became : project.outcome? places path = some (.transformed (.special augmented))) :
    ∃ name, (project.relative path).fileName? = some name ∧
      (splitName name).2 ≠ some "svelte" ∧
      ∀ kind, augmented.kind = .route kind → RouteKind.ofFileName? name = some kind := by
  obtain ⟨source, _, made⟩ := exists_read became
  obtain ⟨name, named, recognised⟩ := exists_fileName (kind_of_augment (augment_of_special made))
  have special := extension?_special became
  unfold extension? at special
  rw [named] at special
  exact ⟨name, named, special, recognised⟩

private theorem exists_name_component {transpiled : Component.Transpiled}
    (became : project.outcome? places path = some (.transformed (.component transpiled))) :
    ∃ name, (project.relative path).fileName? = some name ∧ (splitName name).2 = some "svelte" :=
  Option.bind_eq_some_iff.1 (extension?_component became)

section

variable (encloses : project.Encloses path)

include encloses

/-- A file of the project has the name that is seen from there. -/
theorem Encloses.exists_ofPath {name : String}
    (named : (project.relative path).fileName? = some name) :
    ∃ above, Location.ofPath path = above ++ [name] := by
  obtain ⟨above, seen⟩ := FilePath.exists_ofPath named
  refine ⟨Location.ofPath project.root ++ above, ?_⟩
  rw [encloses.place, seen, List.append_assoc]

/-- The code of a component goes by the longer name. -/
theorem Encloses.exists_target_component {transpiled : Component.Transpiled} (directory : FilePath)
    (became : project.outcome? places path = some (.transformed (.component transpiled))) :
    ∃ name, (∃ above, Location.ofPath path = above ++ [name]) ∧
      (splitName name).2 = some "svelte" ∧
      ∃ above, project.target directory path = above ++ [name ++ ".ts"] := by
  obtain ⟨name, named, component⟩ := exists_name_component became
  obtain ⟨above, last, seen, target⟩ := encloses.target_component directory became
  obtain ⟨front, again⟩ := FilePath.exists_ofPath named
  obtain rfl := List.singleton_inj.1 (List.append_inj' (again.symm.trans seen) rfl).2
  refine ⟨name, encloses.exists_ofPath named, component,
    Location.ofPath (project.root.join directory) ++ above, ?_⟩
  rw [target, List.append_assoc]

/-- The name that the code of a file goes by is that of no component. -/
theorem Encloses.exists_target (directory : FilePath)
    (became : project.outcome? places path = some (.transformed file)) :
    ∃ above name, project.target directory path = above ++ [name] ∧
      (splitName name).2 ≠ some "svelte" := by
  cases file with
  | component transpiled =>
    obtain ⟨name, _, component, above, target⟩ := encloses.exists_target_component directory became
    refine ⟨above, name ++ ".ts", target, ?_⟩
    rw [splitName_extended fun empty => ?_]
    · exact fun same => absurd (Option.some_inj.1 same) (by decide)
    · rw [empty] at component
      cases component
  | special augmented =>
    obtain ⟨name, named, special, _⟩ := exists_name_special became
    obtain ⟨above, seen⟩ := FilePath.exists_ofPath named
    refine ⟨Location.ofPath (project.root.join directory) ++ above, name, ?_, special⟩
    rw [encloses.target_special directory became, seen, List.append_assoc]

end

section

variable {after : Project} {directory origin : FilePath} {first : Transformed}
  (encloses : project.Encloses origin) (afterEncloses : after.Encloses path)
  (written : project.target directory origin = Location.ofPath path)

include encloses afterEncloses written

/-- Generated code that is found is taken for a special file. -/
theorem special_of_generated {afterPlaces : KitPaths}
    (became : project.outcome? places origin = some (.transformed first))
    (again : after.outcome? afterPlaces path = some (.transformed file)) :
    ∃ augmented, file = .special augmented := by
  cases file with
  | special augmented => exact ⟨augmented, rfl⟩
  | component transpiled =>
    obtain ⟨above, name, target, special⟩ := encloses.exists_target directory became
    obtain ⟨last, named, component⟩ := exists_name_component again
    obtain ⟨front, place⟩ := afterEncloses.exists_ofPath named
    rw [target, place] at written
    obtain rfl := List.singleton_inj.1 (List.append_inj' written rfl).2
    exact absurd component special

/-- Code of a component is taken for that of a route module only if there is an at sign in the name of
the component. -/
theorem mem_name_of_generated {afterPlaces : KitPaths} {transpiled : Component.Transpiled}
    {augmented : Augmented} {kind : RouteKind}
    (became : project.outcome? places origin = some (.transformed (.component transpiled)))
    (again : after.outcome? afterPlaces path = some (.transformed (.special augmented)))
    (route : augmented.kind = .route kind) :
    ∃ above name, Location.ofPath origin = above ++ [name] ∧ '@' ∈ name.toList := by
  obtain ⟨name, ⟨above, place⟩, component, front, target⟩ :=
    encloses.exists_target_component directory became
  obtain ⟨last, named, _, recognised⟩ := exists_name_special again
  obtain ⟨_, afterPlace⟩ := afterEncloses.exists_ofPath named
  rw [target, afterPlace] at written
  obtain rfl := List.singleton_inj.1 (List.append_inj' written rfl).2
  exact ⟨above, name, place, mem_of_ofFileName? component (recognised kind route)⟩

end

/-- The report on a component that a search finds comes before that on a special file that covers
it. -/
theorem Covers.compare {ignored : List Glob} (covers : project.Covers places path other)
    (proper : project.tree.Proper) (listed : path ∈ project.candidates ignored)
    (otherListed : other ∈ project.candidates ignored) :
    (project.relative path).compare (project.relative other) = .lt := by
  obtain ⟨_, _, above, name, component, _, place, otherPlace⟩ := covers
  have named := extension?_component component
  obtain ⟨names, candidate, rfl⟩ := (mem_candidates proper).1 listed
  obtain ⟨others, otherCandidate, rfl⟩ := (mem_candidates proper).1 otherListed
  have isName := candidate.held.isName proper
  have otherIsName := otherCandidate.held.isName proper
  rw [candidate.held.relative_pathOf proper] at named ⊢
  rw [otherCandidate.held.relative_pathOf proper]
  rw [candidate.held.ofPath_pathOf proper] at place
  rw [otherCandidate.held.ofPath_pathOf proper] at otherPlace
  cases names using List.reverseRecOn with
  -- without names the path would be that of the project, which has no extension as seen from there
  | nil => cases named
  | append_singleton front last =>
    rw [← List.append_assoc] at place
    obtain ⟨rfl, same⟩ := List.append_inj' place rfl
    obtain rfl := List.singleton_inj.1 same
    rw [List.append_assoc] at otherPlace
    obtain rfl := List.append_cancel_left otherPlace
    exact compare_extended (by decide) isName otherIsName

end

end Project

section

variable {directory : FilePath} {paths : List FilePath} {summary : Summary}
  (writes : options.outDir = some directory) (transforms : options.query? = none)
  (selected : (options.project here tree).selection options = .ok paths)
  (proper : tree.Proper)
  (named : options.files ≠ [] → (options.project here tree).Contains paths ∧
    ∀ path ∈ paths, ∃ source, tree.read path = .ok source)
  (done : (run here options tree).result = .ok summary)
  (settled : (options.project here (run here options tree).tree).kitPaths options =
    (options.project here tree).kitPaths options)

include transforms selected in
/-- A project that is not there is not made by a run. -/
theorem exists_located (searches : options.files = []) {place : Location}
    (located : (run here options tree).tree.locate (here.join options.root).parts = .ok place) :
    ∃ directory, tree.locate (here.join options.root).parts = .ok directory := by
  cases before : tree.locate (here.join options.root).parts with
  | ok directory => exact ⟨directory, rfl⟩
  | error fault =>
    obtain ⟨ignored, _, rfl⟩ := Project.exists_candidates_of_selection searches selected
    have nothing : (options.project here tree).candidates ignored = [] := by
      have fails : (options.project here tree).tree.locate (options.project here tree).root.parts =
          .error fault := before
      unfold Project.candidates Project.files
      rw [fails]
      rfl
    rw [nothing] at selected
    have kept : (run here options tree).tree = tree := by
      have none : (options.project here tree).reports?
          ((options.project here tree).kitPaths options) [] = some [] :=
        congrArg some List.mergeSort_nil
      rw [run_eq, runAt_eq transforms selected, transformAll_of_reports none, tree_conclude]
      rfl
    rw [kept, before] at located
    cases located

include writes transforms selected proper done in
/-- When a run that searches the project is over, the code of a file is at its place unless it is that
of a component and a special file covers it. -/
theorem file?_run_of_uncovered (searches : options.files = []) {path : FilePath}
    {file : Transformed} (listed : path ∈ paths)
    (became : (options.project here tree).outcome? ((options.project here tree).kitPaths options) path =
      some (.transformed file))
    (uncovered : ∀ other ∈ paths, ¬ (options.project here tree).Covers
      ((options.project here tree).kitPaths options) path other) :
    (run here options tree).tree.file? ((options.project here tree).target directory path) =
      some file.code := by
  obtain ⟨ignored, _, rfl⟩ := Project.exists_candidates_of_selection searches selected
  have contains := @Project.contains_candidates (options.project here tree) proper ignored
  exact contains.file?_run writes transforms selected done listed became uncovered
    fun other otherListed covers => covers.compare proper otherListed listed

/-- A search finds a file that no code was written to already in the earlier tree, and it is read
as before. -/
theorem Project.Holds.of_grows {grown : Tree} {names place : Location}
    (held : (Project.mk grown root).Holds names) (grows : tree.Grows grown)
    (proper : grown.Proper) (located : tree.locate root.parts = .ok place)
    (kept : grown.file? (Location.ofPath (Project.pathOf ⟨grown, root⟩ names)) =
      tree.file? (Location.ofPath (Project.pathOf ⟨grown, root⟩ names))) :
    (Project.mk tree root).Holds names ∧
      grown.read (Project.pathOf ⟨grown, root⟩ names) =
        tree.read (Project.pathOf ⟨grown, root⟩ names) := by
  have leads := held.ofPath_pathOf proper
  have parts : (Project.pathOf ⟨grown, root⟩ names).parts = root.parts ++ names.map Part.name :=
    parts_join_names (held.isName proper) (held.spelled proper)
  obtain ⟨again, locatedAgain, listed⟩ := held
  obtain rfl : again = Location.ofPath root := Tree.eq_follow_of_locate locatedAgain
  obtain rfl : place = Location.ofPath root := Tree.eq_follow_of_locate located
  have file := Tree.isSome_file?_iff.2 listed
  rw [leads] at kept
  rw [kept] at file
  have before := Tree.isSome_file?_iff.1 file
  refine ⟨⟨_, located, before⟩, grows.read ?_ file kept⟩
  rw [parts]
  exact Tree.locate_names located before

include transforms selected proper named settled in
/-- A file that no code was written to becomes the same when the run is repeated. -/
theorem transforms_of_kept {path : FilePath} {file : Transformed}
    (again : (options.project here (run here options tree).tree).Transforms options path file)
    (kept : (run here options tree).tree.file? (Location.ofPath path) =
      tree.file? (Location.ofPath path)) :
    path ∈ paths ∧ (options.project here tree).outcome?
      ((options.project here tree).kitPaths options) path = some (.transformed file) := by
  obtain ⟨_, selectedAgain, listed, became⟩ := again
  rw [settled] at became
  by_cases searches : options.files = []
  · have grownProper := @proper_run here options tree proper
    obtain ⟨ignored, read, rfl⟩ := Project.exists_candidates_of_selection searches selectedAgain
    obtain ⟨names, candidate, rfl⟩ := (Project.mem_candidates grownProper).1 listed
    obtain ⟨_, locatedAgain, _⟩ := candidate.held
    obtain ⟨_, located⟩ := exists_located transforms selected searches locatedAgain
    obtain ⟨held, readable⟩ := candidate.held.of_grows grows_run grownProper located kept
    obtain ⟨_, readBefore, rfl⟩ := Project.exists_candidates_of_selection searches selected
    cases read.symm.trans readBefore
    have before : (options.project here tree).Candidate ignored names :=
      { candidate with held := held }
    exact ⟨(Project.mem_candidates proper).2 ⟨names, before, rfl⟩,
      (Project.outcome?_congr readable).symm.trans became⟩
  · cases (Project.selection_named searches).symm.trans selectedAgain
    cases (Project.selection_named searches).symm.trans selected
    obtain ⟨source, readable⟩ := (named searches).2 path listed
    obtain ⟨place, located, _, there, _⟩ := Tree.exists_of_read readable
    obtain rfl : place = Location.ofPath path := Tree.eq_follow_of_locate located
    have file := Option.isSome_iff_exists.2 ⟨_, there⟩
    exact ⟨listed, (Project.outcome?_congr (grows_run.read located file kept)).symm.trans became⟩

include selected proper named in
private theorem contains_again {again : List FilePath}
    (selectedAgain : (options.project here (run here options tree).tree).selection options =
      .ok again) : (options.project here (run here options tree).tree).Contains again := by
  refine Project.contains_selection (proper_run proper) selectedAgain fun searches => ?_
  cases (Project.selection_named searches).symm.trans selectedAgain
  cases (Project.selection_named searches).symm.trans selected
  exact ⟨(named searches).1.encloses, (named searches).1.distinct⟩

include writes transforms selected proper named done settled in
/-- A second run changes a file only where generated code goes that is found to be a special file and
comes out in another way, or where the codes of a component and a special file went. -/
theorem changed_by_rerun {place : Location}
    (changed : (run here options (run here options tree).tree).tree.file? place ≠
      (run here options tree).tree.file? place) :
    (∃ origin first path augmented, (options.project here tree).Regenerates
        (options.project here (run here options tree).tree) options directory origin first path
          augmented ∧
        place = (options.project here (run here options tree).tree).target directory path) ∨
      ∃ component ∈ paths, ∃ special ∈ paths, (options.project here tree).Covers
          ((options.project here tree).kitPaths options) component special ∧
        place = (options.project here tree).target directory component := by
  have contains := Project.contains_selection proper selected fun searches => (named searches).1
  obtain ⟨_, again, same, selectedAgain, path, listed, file, became, rfl, differs⟩ :=
    differs_by_run changed
  cases writes.symm.trans same
  -- a file that is not generated is read as before, so its code is already there
  by_cases generated : ∃ origin ∈ paths, ∃ first, (options.project here tree).outcome?
      ((options.project here tree).kitPaths options) origin = some (.transformed first) ∧
        (options.project here tree).target directory origin = Location.ofPath path
  · left
    obtain ⟨origin, originListed, first, transformed, written⟩ := generated
    have encloses := (contains_again selected proper named selectedAgain).encloses path listed
    obtain ⟨augmented, rfl⟩ := Project.special_of_generated (contains.encloses origin originListed)
      encloses written transformed became
    exact ⟨origin, first, path, augmented, ⟨⟨paths, selected, originListed, transformed⟩,
      written, ⟨again, selectedAgain, listed, became⟩, differs⟩, rfl⟩
  · right
    have kept : (run here options tree).tree.file? (Location.ofPath path) =
        tree.file? (Location.ofPath path) := by
      by_contra written
      obtain ⟨_, _, same, selectedFirst, origin, listed, first, became, target⟩ :=
        changed_by_run written
      cases writes.symm.trans same
      cases selected.symm.trans selectedFirst
      exact generated ⟨origin, listed, first, became, target.symm⟩
    obtain ⟨listed, became⟩ := transforms_of_kept transforms selected proper named settled
      ⟨again, selectedAgain, listed, became⟩ kept
    by_contra apart
    refine differs (contains.file?_run writes transforms selected done listed became ?_ ?_)
    · exact fun other otherListed covers => apart ⟨path, listed, other, otherListed, covers, rfl⟩
    · intro other otherListed covers
      refine absurd ⟨other, otherListed, path, listed, covers, ?_⟩ apart
      obtain ⟨_, _, _, _, component, _⟩ := id covers
      exact (contains.target_eq_iff listed otherListed became component).2 (.inr (.inr covers))

end

/-- Repeating a run changes a file only where generated code goes that is found to be a special file
and comes out in another way, or where the codes of a component and a special file went. Where
generated code comes out in another way, a second run that searches the project leaves that. Code of
a component that is taken for a route module has an at sign in its name. -/
theorem rerun_changes {directory : FilePath} {paths : List FilePath} {summary : Summary}
    (writes : options.outDir = some directory) (transforms : options.query? = none)
    (selected : (options.project here tree).selection options = .ok paths) (proper : tree.Proper)
    (named : options.files ≠ [] → (options.project here tree).Contains paths ∧
      ∀ path ∈ paths, ∃ source, tree.read path = .ok source)
    (done : (run here options tree).result = .ok summary)
    (settled : (options.project here (run here options tree).tree).kitPaths options =
      (options.project here tree).kitPaths options) :
    let before := options.project here tree
    let after := options.project here (run here options tree).tree
    let again := run here options (run here options tree).tree
    (∀ place, again.tree.file? place ≠ after.tree.file? place →
      (∃ origin first path augmented,
        before.Regenerates after options directory origin first path augmented ∧
          place = after.target directory path) ∨
      ∃ component ∈ paths, ∃ special ∈ paths,
        before.Covers (before.kitPaths options) component special ∧
          place = before.target directory component) ∧
    ∀ origin first path augmented,
      before.Regenerates after options directory origin first path augmented →
        (options.files = [] → ∀ total, again.result = .ok total →
          again.tree.file? (after.target directory path) = some augmented.text) ∧
        ∀ transpiled kind, first = .component transpiled → augmented.kind = .route kind →
          ∃ above name, Location.ofPath origin = above ++ [name] ∧ '@' ∈ name.toList := by
  intro before after again
  refine ⟨fun _ => changed_by_rerun writes transforms selected proper named done settled,
    fun origin first path augmented regenerates => ?_⟩
  obtain ⟨⟨_, selectedFirst, originListed, transformed⟩, written,
    ⟨found, selectedAgain, listed, became⟩, _⟩ := regenerates
  constructor
  · intro searches total finished
    refine file?_run_of_uncovered writes transforms selectedAgain (proper_run proper) finished searches
      listed became fun other _ covers => ?_
    obtain ⟨transpiled, other⟩ := covers.component became
    cases other
  · rintro transpiled kind rfl route
    cases selected.symm.trans selectedFirst
    have contains := Project.contains_selection proper selected fun searches => (named searches).1
    have containsAgain := contains_again selected proper named selectedAgain
    exact Project.mem_name_of_generated (contains.encloses origin originListed)
      (containsAgain.encloses path listed) written transformed became route

/-- A matcher: its code is found and has all its types, so a second run changes nothing. -/
theorem rerun_changes_nothing :
    let tree : Tree := ⟨[(["app", "src", "params", "a.ts"], "export function match(p) \x7b\x7d")], []⟩
    let options : Options := { Options.none with
      workspace := some (.ofText "/app"), outDir := some (.ofText "types") }
    let matcher : FilePath := .ofText "/app/src/params/a.ts"
    let before := options.project (.ofText "/") tree
    let after := options.project (.ofText "/") (run (.ofText "/") options tree).tree
    options.outDir = some (.ofText "types") ∧ options.query? = none ∧
      before.selection options = .ok [matcher] ∧ tree.Proper ∧ options.files = [] ∧
      (run (.ofText "/") options tree).result = .ok ⟨1, 0, 0⟩ ∧
      after.kitPaths options = before.kitPaths options ∧
      after.selection options = .ok [matcher, .ofText "/app/types/src/params/a.ts"] ∧
      ∀ place, (run (.ofText "/") options after.tree).tree.file? place = after.tree.file? place := by
  intro tree options matcher before after
  let generated : FilePath := .ofText "/app/types/src/params/a.ts"
  have selected : before.selection options = .ok [matcher] := by decide +kernel
  have proper : tree.Proper := ⟨by decide, by decide⟩
  have done : (run (.ofText "/") options tree).result = .ok ⟨1, 0, 0⟩ := by decide +kernel
  have settled : after.kitPaths options = before.kitPaths options := by decide +kernel
  have selectedAgain : after.selection options = .ok [matcher, generated] := by decide +kernel
  have elsewhere : before.target (.ofText "types") matcher ≠ Location.ofPath matcher := by
    decide +kernel
  have typed : ∀ report ∈ after.report? (after.kitPaths options) generated, report.code? = none := by
    decide +kernel
  obtain ⟨changes, _⟩ := @rerun_changes (.ofText "/") options tree (.ofText "types") [matcher]
    ⟨1, 0, 0⟩ rfl rfl selected proper (fun named => absurd rfl named) done settled
  refine ⟨rfl, rfl, selected, proper, rfl, done, settled, selectedAgain, fun place => ?_⟩
  by_contra changed
  rcases changes place changed with ⟨_, _, path, _, regenerates, _⟩ | ⟨_, one, _, two, covers, _⟩
  · obtain ⟨⟨_, again, listed, _⟩, written, ⟨_, found, member, became⟩, _⟩ := regenerates
    cases selected.symm.trans again
    cases selectedAgain.symm.trans found
    obtain rfl := List.mem_singleton.1 listed
    rcases List.mem_pair.1 member with rfl | rfl
    · exact elsewhere written
    · cases typed ⟨after.relative generated, _⟩ (Project.report?_eq_some.2 ⟨rfl, became⟩)
  · obtain rfl := List.mem_singleton.1 one
    obtain rfl := List.mem_singleton.1 two
    exact Project.not_covers_self covers

/-- The code of a component whose name has an at sign is taken for a route module: a second run types it
and adds a file. -/
theorem rerun_grows :
    let tree : Tree := ⟨[(["app", "src", "routes", "+page@.svelte"],
      "<script context=\"module\">export const ssr = true</script>")], []⟩
    let options : Options := { Options.none with
      workspace := some (.ofText "/app"), outDir := some (.ofText "types") }
    let left := (run (.ofText "/") options tree).tree
    let added : Location := ["app", "types", "types", "src", "routes", "+page@.svelte.ts"]
    (run (.ofText "/") options tree).result = .ok ⟨1, 0, 0⟩ ∧ left.file? added = none ∧
      ((run (.ofText "/") options left).tree.file? added).isSome = true := by
  intro tree options left added
  let project := options.project (.ofText "/") left
  let component : FilePath := .ofText "/app/src/routes/+page@.svelte"
  let generated : FilePath := .ofText "/app/types/src/routes/+page@.svelte.ts"
  have selected : project.selection options = .ok [component, generated] := by decide +kernel
  have sorted : project.reports? (project.kitPaths options) [component, generated] =
      [component, generated].mapM (project.report? (project.kitPaths options)) :=
    Project.reports?_of_sorted (by decide +kernel)
  have again : (run (.ofText "/") options left).tree =
      (transformAll project options (project.kitPaths options) [component, generated]).tree := by
    rw [run_eq, runAt_eq rfl selected]
  rw [again]
  unfold transformAll
  rw [sorted]
  decide +kernel

end TypedSvelte.Command
