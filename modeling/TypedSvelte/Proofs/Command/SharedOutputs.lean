import TypedSvelte.Proofs.Command.OutputPlaces

/-!
# Generated code with a place of its own

The generated code of a component gets a longer name, that of a special file keeps its name. So the
codes of two files of a project are written to the same place if and only if one is a component and
the other a special file with the longer name beside it (`targets_apart`). Such files exist, and the
code of the component is lost then (`component_lost`).
-/
namespace TypedSvelte.Command

open FilePath Kit

variable {here : FilePath} {options : Options} {tree : Tree} {project : Project}
  {places : KitPaths}

namespace Project

/-- The paths lead to files of the project, and to different ones. -/
structure Contains (project : Project) (paths : List FilePath) : Prop where
  encloses : ∀ path ∈ paths, project.Encloses path
  distinct : ∀ path ∈ paths, ∀ other ∈ paths,
    Location.ofPath path = Location.ofPath other → path = other

/-- A search finds different files. -/
theorem contains_candidates (proper : project.tree.Proper) (ignored : List Glob) :
    project.Contains (project.candidates ignored) := by
  refine ⟨encloses_candidates proper ignored, ?_⟩
  obtain ⟨candidates, _, complete, found⟩ := exists_candidates proper ignored
  have place {names : Location} (member : names ∈ candidates) :
      Location.ofPath (project.pathOf names) = Location.ofPath project.root ++ names :=
    ((complete names).1 member).held.ofPath_pathOf proper
  rw [found, List.forall_mem_map]
  intro names member
  rw [List.forall_mem_map]
  intro other otherMember same
  rw [place member, place otherMember] at same
  exact congrArg project.pathOf (List.append_cancel_left same)

/-- The special file is where the code of the component is written. -/
def Covers (project : Project) (places : KitPaths) (component special : FilePath) : Prop :=
  ∃ transpiled augmented directory name,
    project.outcome? places component = some (.transformed (.component transpiled)) ∧
    project.outcome? places special = some (.transformed (.special augmented)) ∧
    Location.ofPath component = directory ++ [name] ∧
    Location.ofPath special = directory ++ [name ++ ".ts"]

theorem exists_read {path : FilePath} {file : Transformed}
    (became : project.outcome? places path = some (.transformed file)) :
    ∃ source, project.tree.read path = .ok source ∧
      transformFile (project.relative path) source places = .ok (some file) := by
  unfold Project.outcome? at became
  split at became
  · cases became
  · rename_i source readable
    refine ⟨source, readable, ?_⟩
    split at became
    · rename_i found transformed
      cases became
      exact transformed
    all_goals cases became

/-- A file is transformed as a component if and only if its name says so. -/
theorem component_iff {path : FilePath} {source : String} {file : Transformed}
    (made : transformFile path source places = .ok (some file)) :
    (∃ transpiled, file = .component transpiled) ↔ path.extension? = some "svelte" := by
  unfold transformFile at made
  split at made
  · rename_i component
    refine ⟨fun _ => eq_of_beq component, fun _ => ?_⟩
    cases transpiled : Component.transpile source with
    | error error =>
      rw [transpiled] at made
      cases made
    | ok result =>
      rw [transpiled] at made
      cases made
      exact ⟨result, rfl⟩
  · rename_i special
    refine ⟨?_, fun component => absurd (beq_iff_eq.2 component) special⟩
    rintro ⟨transpiled, rfl⟩
    cases augmented : augment path source places with
    | error error =>
      rw [augmented] at made
      cases made
    | ok result =>
      rw [augmented] at made
      cases result <;> cases made

theorem extension?_component {path : FilePath} {transpiled : Component.Transpiled}
    (became : project.outcome? places path = some (.transformed (.component transpiled))) :
    (project.relative path).extension? = some "svelte" := by
  obtain ⟨_, _, made⟩ := exists_read became
  exact (component_iff made).1 ⟨transpiled, rfl⟩

theorem extension?_special {path : FilePath} {augmented : Augmented}
    (became : project.outcome? places path = some (.transformed (.special augmented))) :
    (project.relative path).extension? ≠ some "svelte" := by
  obtain ⟨_, _, made⟩ := exists_read became
  exact mt (component_iff made).2 nofun

section

variable {path : FilePath} (encloses : project.Encloses path)

include encloses

theorem Encloses.place :
    Location.ofPath path = Location.ofPath project.root ++ Location.ofPath (project.relative path) := by
  have stays := encloses.relative
  obtain ⟨seen, found, _⟩ := encloses
  have same : project.relative path = seen := congrArg (Option.getD · path) found
  rw [same] at stays ⊢
  exact (Location.ofPath_of_relativeTo? found).trans (stays.foldl_enter _)

theorem Encloses.target_special {augmented : Augmented} (directory : FilePath)
    (became : project.outcome? places path = some (.transformed (.special augmented))) :
    project.target directory path =
      Location.ofPath (project.root.join directory) ++ Location.ofPath (project.relative path) := by
  rw [encloses.target, generatedPath_special (extension?_special became)]

theorem Encloses.target_component {transpiled : Component.Transpiled} (directory : FilePath)
    (became : project.outcome? places path = some (.transformed (.component transpiled))) :
    ∃ above name, Location.ofPath (project.relative path) = above ++ [name] ∧
      project.target directory path =
        Location.ofPath (project.root.join directory) ++ (above ++ [name ++ ".ts"]) := by
  obtain ⟨source, readable, _⟩ := exists_read became
  have file : (project.relative path).wantsDirectory = false := by
    obtain ⟨seen, found, _⟩ := encloses
    have same : project.relative path = seen := congrArg (Option.getD · path) found
    obtain ⟨_, _, _, _, file⟩ := Tree.exists_of_read readable
    rw [same]
    exact wantsDirectory_of_relativeTo? found file
  obtain ⟨front, last, whole, _, named, generated⟩ := generatedPath_component (extension?_component became)
  refine ⟨Location.ofPath ⟨front⟩, last, ?_, ?_⟩
  · rw [whole, ofPath_concat front (named file)]
  · rw [encloses.target, generated, ofPath_concat front (isName_extended last)]

end

section

variable {path other : FilePath} (encloses : project.Encloses path)
  (otherEncloses : project.Encloses other)

include encloses otherEncloses

/-- The code of a component is written where a special file with the longer name gets its code. -/
theorem covers_iff {directory : FilePath} {transpiled : Component.Transpiled} {augmented : Augmented}
    (component : project.outcome? places path = some (.transformed (.component transpiled)))
    (special : project.outcome? places other = some (.transformed (.special augmented))) :
    project.target directory path = project.target directory other ↔
      project.Covers places path other := by
  obtain ⟨above, name, seen, target⟩ := encloses.target_component directory component
  have place := encloses.place
  have otherPlace := otherEncloses.place
  rw [target, otherEncloses.target_special directory special, List.append_cancel_left_eq]
  rw [seen, ← List.append_assoc] at place
  constructor
  · intro same
    refine ⟨transpiled, augmented, _, name, component, special, place, ?_⟩
    rw [otherPlace, ← same, List.append_assoc]
  · rintro ⟨_, _, front, last, _, _, componentPlace, specialPlace⟩
    obtain ⟨rfl, same⟩ := List.append_inj' (componentPlace.symm.trans place) rfl
    obtain rfl : last = name := List.singleton_inj.1 same
    rw [otherPlace, List.append_assoc] at specialPlace
    exact (List.append_cancel_left specialPlace).symm

private theorem target_component_inj {directory : FilePath} {transpiled again : Component.Transpiled}
    (became : project.outcome? places path = some (.transformed (.component transpiled)))
    (otherBecame : project.outcome? places other = some (.transformed (.component again)))
    (same : project.target directory path = project.target directory other) :
    Location.ofPath path = Location.ofPath other := by
  obtain ⟨above, name, seen, target⟩ := encloses.target_component directory became
  obtain ⟨otherAbove, otherName, otherSeen, otherTarget⟩ :=
    otherEncloses.target_component directory otherBecame
  rw [target, otherTarget] at same
  obtain ⟨rfl, names⟩ := List.append_inj' (List.append_cancel_left same) rfl
  obtain rfl := (String.append_left_inj ".ts").1 (List.singleton_inj.1 names)
  rw [encloses.place, otherEncloses.place, seen, otherSeen]

private theorem target_special_inj {directory : FilePath} {augmented again : Augmented}
    (became : project.outcome? places path = some (.transformed (.special augmented)))
    (otherBecame : project.outcome? places other = some (.transformed (.special again)))
    (same : project.target directory path = project.target directory other) :
    Location.ofPath path = Location.ofPath other := by
  rw [encloses.target_special directory became,
    otherEncloses.target_special directory otherBecame] at same
  rw [encloses.place, otherEncloses.place, List.append_cancel_left same]

end

theorem Covers.component {path other : FilePath} {file : Transformed}
    (covers : project.Covers places path other)
    (became : project.outcome? places path = some (.transformed file)) :
    ∃ transpiled, file = .component transpiled := by
  obtain ⟨transpiled, _, _, _, component, _⟩ := covers
  exact ⟨transpiled, FileOutcome.transformed.inj (Option.some.inj (became.symm.trans component))⟩

theorem Covers.special {path other : FilePath} {file : Transformed}
    (covers : project.Covers places path other)
    (became : project.outcome? places other = some (.transformed file)) :
    ∃ augmented, file = .special augmented := by
  obtain ⟨_, augmented, _, _, _, special, _⟩ := covers
  exact ⟨augmented, FileOutcome.transformed.inj (Option.some.inj (became.symm.trans special))⟩

theorem not_covers_self {path : FilePath} : ¬ project.Covers places path path := by
  rintro ⟨_, _, _, _, component, special, _⟩
  cases component.symm.trans special

/-- The codes of two files of the project are written to the same place only if one file covers the
other. -/
theorem Contains.target_eq_iff {paths : List FilePath} (contains : project.Contains paths)
    {path other : FilePath} (listed : path ∈ paths) (otherListed : other ∈ paths)
    {directory : FilePath} {file otherFile : Transformed}
    (became : project.outcome? places path = some (.transformed file))
    (otherBecame : project.outcome? places other = some (.transformed otherFile)) :
    project.target directory path = project.target directory other ↔
      path = other ∨ project.Covers places path other ∨ project.Covers places other path := by
  have encloses := contains.encloses path listed
  have otherEncloses := contains.encloses other otherListed
  have distinct := contains.distinct path listed other otherListed
  constructor
  · intro same
    cases file with
    | component transpiled =>
      cases otherFile with
      | component again =>
        exact .inl (distinct (target_component_inj encloses otherEncloses became otherBecame same))
      | special augmented =>
        exact .inr (.inl ((covers_iff encloses otherEncloses became otherBecame).1 same))
    | special augmented =>
      cases otherFile with
      | component transpiled =>
        exact .inr (.inr ((covers_iff otherEncloses encloses otherBecame became).1 same.symm))
      | special again =>
        exact .inl (distinct (target_special_inj encloses otherEncloses became otherBecame same))
  · rintro (rfl | covers | covers)
    · rfl
    · obtain ⟨transpiled, rfl⟩ := covers.component became
      obtain ⟨augmented, rfl⟩ := covers.special otherBecame
      exact (covers_iff encloses otherEncloses became otherBecame).2 covers
    · obtain ⟨transpiled, rfl⟩ := covers.component otherBecame
      obtain ⟨augmented, rfl⟩ := covers.special became
      exact ((covers_iff otherEncloses encloses otherBecame became).2 covers).symm

end Project

/-- The code of a file that no special file covers is at its place, if the components that it covers
come before it. -/
theorem Project.Contains.file?_run {directory path : FilePath} {paths : List FilePath}
    {file : Transformed} {summary : Summary} (writes : options.outDir = some directory)
    (transforms : options.query? = none)
    (selected : (options.project here tree).selection options = .ok paths)
    (contains : (options.project here tree).Contains paths)
    (done : (run here options tree).result = .ok summary) (listed : path ∈ paths)
    (became : (options.project here tree).outcome? ((options.project here tree).kitPaths options) path =
      some (.transformed file))
    (apart : ∀ other ∈ paths, ¬ (options.project here tree).Covers
      ((options.project here tree).kitPaths options) path other)
    (later : ∀ other ∈ paths, (options.project here tree).Covers
        ((options.project here tree).kitPaths options) other path →
      ((options.project here tree).relative other).compare
        ((options.project here tree).relative path) = .lt) :
    (run here options tree).tree.file? ((options.project here tree).target directory path) =
      some file.code := by
  rw [run_eq, runAt_eq transforms selected] at done ⊢
  refine file?_transformAll writes done listed became ?_
  intro other otherListed otherFile otherBecame same after
  rcases (contains.target_eq_iff otherListed listed otherBecame became).1 same with
    rfl | covers | covers
  · cases otherBecame.symm.trans became
    rfl
  · rw [compare_swap, later other otherListed covers] at after
    cases after
  · exact absurd covers (apart other otherListed)

/-- The codes of two files that a run transforms are written to the same place if and only if one is
a component and the other a special file where the code of the component is written. The code of
any other file is at its place when the run is over. -/
theorem targets_apart {directory : FilePath} {paths : List FilePath}
    (writes : options.outDir = some directory) (transforms : options.query? = none)
    (selected : (options.project here tree).selection options = .ok paths) :
    let project := options.project here tree
    let places := project.kitPaths options
    (options.files = [] → tree.Proper → project.Contains paths) ∧
    (project.Contains paths →
      (∀ path ∈ paths, ∀ other ∈ paths, ∀ file otherFile,
        project.outcome? places path = some (.transformed file) →
        project.outcome? places other = some (.transformed otherFile) →
          (project.target directory path = project.target directory other ↔
            path = other ∨ project.Covers places path other ∨ project.Covers places other path)) ∧
      ∀ summary, (run here options tree).result = .ok summary →
        ∀ path ∈ paths, ∀ file, project.outcome? places path = some (.transformed file) →
          (∀ other ∈ paths, ¬ project.Covers places path other ∧ ¬ project.Covers places other path) →
            (run here options tree).tree.file? (project.target directory path) = some file.code) := by
  intro project places
  refine ⟨fun searches proper => ?_, fun contains => ⟨?_, ?_⟩⟩
  · obtain ⟨ignored, _, rfl⟩ := Project.exists_candidates_of_selection searches selected
    exact Project.contains_candidates proper ignored
  · intro path listed other otherListed file otherFile became otherBecame
    exact contains.target_eq_iff listed otherListed became otherBecame
  · intro summary done path listed file became apart
    exact contains.file?_run writes transforms selected done listed became
      (fun other otherListed => (apart other otherListed).1)
      fun other otherListed covers => absurd covers (apart other otherListed).2

/-- A component and a matcher in one directory. -/
theorem targets_apart_found :
    let tree : Tree := ⟨[(["app", "src", "params", "a.svelte"], "<p>hi</p>"),
      (["app", "src", "params", "b.ts"], "export function match(p) \x7b\x7d")], []⟩
    let options : Options := { Options.none with
      workspace := some (.ofText "/app"), outDir := some (.ofText "out") }
    let project := options.project (.ofText "/") tree
    let component : FilePath := .ofText "/app/src/params/a.svelte"
    let matcher : FilePath := .ofText "/app/src/params/b.ts"
    options.outDir = some (.ofText "out") ∧ options.query? = none ∧
      project.selection options = .ok [component, matcher] ∧
      (run (.ofText "/") options tree).result = .ok ⟨2, 0, 0⟩ ∧
      ∃ file otherFile,
        project.outcome? (project.kitPaths options) component = some (.transformed file) ∧
        project.outcome? (project.kitPaths options) matcher = some (.transformed otherFile) ∧
        project.target (.ofText "out") component ≠ project.target (.ofText "out") matcher ∧
        (run (.ofText "/") options tree).tree.file? (project.target (.ofText "out") component) =
          some file.code ∧
        (run (.ofText "/") options tree).tree.file? (project.target (.ofText "out") matcher) =
          some otherFile.code := by
  intro tree options project component matcher
  have selected : project.selection options = .ok [component, matcher] := by decide +kernel
  have sorted : project.reports? (project.kitPaths options) [component, matcher] =
      [component, matcher].mapM (project.report? (project.kitPaths options)) :=
    Project.reports?_of_sorted (by decide +kernel)
  have done : (run (.ofText "/") options tree).result = .ok ⟨2, 0, 0⟩ := by
    rw [run_eq, runAt_eq rfl selected]
    unfold transformAll
    rw [sorted]
    decide +kernel
  have transformed (path : FilePath)
      (found : (project.report? (project.kitPaths options) path).any (·.code?.isSome) = true) :
      ∃ file, project.outcome? (project.kitPaths options) path = some (.transformed file) := by
    obtain ⟨report, told, codes⟩ := (Option.any_eq_true _ _).1 found
    obtain ⟨code, holds⟩ := Option.isSome_iff_exists.1 codes
    obtain ⟨file, became, _⟩ := exists_transformed holds
    exact ⟨file, became ▸ (Project.report?_eq_some.1 told).2⟩
  obtain ⟨file, became⟩ := transformed component (by decide +kernel)
  obtain ⟨otherFile, otherBecame⟩ := transformed matcher (by decide +kernel)
  have differ : project.target (.ofText "out") component ≠ project.target (.ofText "out") matcher := by
    decide +kernel
  obtain ⟨searching, contained⟩ := @targets_apart (.ofText "/") options tree (.ofText "out")
    [component, matcher] rfl rfl selected
  obtain ⟨meets, left⟩ := contained (searching rfl ⟨by decide, by decide⟩)
  have listed : component ∈ [component, matcher] := List.mem_cons_self
  have otherListed : matcher ∈ [component, matcher] := List.mem_cons_of_mem _ List.mem_cons_self
  have apart := mt (meets component listed matcher otherListed file otherFile became otherBecame).2 differ
  simp only [not_or] at apart
  obtain ⟨_, here, there⟩ := apart
  refine ⟨rfl, rfl, selected, done, file, otherFile, became, otherBecame, differ,
    left _ done component listed file became ?_, left _ done matcher otherListed otherFile otherBecame ?_⟩
  · rw [List.forall_mem_cons, List.forall_mem_singleton]
    exact ⟨⟨Project.not_covers_self, Project.not_covers_self⟩, here, there⟩
  · rw [List.forall_mem_cons, List.forall_mem_singleton]
    exact ⟨⟨there, here⟩, Project.not_covers_self, Project.not_covers_self⟩

/-- A component and a matcher whose name is the longer one: both are transformed, and only the code of
the matcher is left. -/
theorem component_lost :
    let tree : Tree := ⟨[(["app", "src", "params", "word.svelte"], "<p>hi</p>"),
      (["app", "src", "params", "word.svelte.ts"],
        "export function match(p) \x7b return true; \x7d")], []⟩
    let options : Options := { Options.none with
      workspace := some (.ofText "/app"), outDir := some (.ofText "out") }
    let project := options.project (.ofText "/") tree
    let component : FilePath := .ofText "/app/src/params/word.svelte"
    let matcher : FilePath := .ofText "/app/src/params/word.svelte.ts"
    let written : Location := ["app", "out", "src", "params", "word.svelte.ts"]
    project.selection options = .ok [component, matcher] ∧
      (run (.ofText "/") options tree).result = .ok ⟨2, 0, 0⟩ ∧
      project.target (.ofText "out") component = written ∧
      project.target (.ofText "out") matcher = written ∧
      (run (.ofText "/") options tree).tree.file? written =
        some "export function match(p: string): boolean \x7b return true; \x7d" ∧
      ∃ report, project.report? (project.kitPaths options) component = some report ∧
        report.code? ≠ (run (.ofText "/") options tree).tree.file? written := by
  intro tree options project component matcher written
  have selected : project.selection options = .ok [component, matcher] := by decide +kernel
  have sorted : project.reports? (project.kitPaths options) [component, matcher] =
      [component, matcher].mapM (project.report? (project.kitPaths options)) :=
    Project.reports?_of_sorted (by decide +kernel)
  rw [run_eq, runAt_eq rfl selected]
  unfold transformAll
  rw [sorted]
  decide +kernel

end TypedSvelte.Command
