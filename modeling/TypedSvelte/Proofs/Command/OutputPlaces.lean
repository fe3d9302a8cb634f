import TypedSvelte.Proofs.Command.Enumeration
import TypedSvelte.Proofs.Workspace.Descent

/-!
# Where generated code is written

The generated code of a file is written where the path of the file, as seen from the project, leads
from the output directory. That is below this directory if the path leads to a file of the project
without ever leaving it, as the paths of all files do that a search finds (`changed_places`). Nothing
holds back the path of a file that is named and lies elsewhere (`changed_outside`).
-/
namespace TypedSvelte.Command

open FilePath Kit

variable {here : FilePath} {options : Options} {tree : Tree} {project : Project}

/-- The path of the generated code of a file, as seen from the directory that it is written to. -/
def generatedPath (path : FilePath) : FilePath :=
  if path.extension? == some "svelte" then path.extendedBy ".ts" else path

theorem generatedPath_component {path : FilePath} (component : path.extension? = some "svelte") :
    ∃ front last, path = ⟨front ++ [last]⟩ ∧ last ≠ ".." ∧
      (path.wantsDirectory = false → IsName last) ∧ generatedPath path = ⟨front ++ [last ++ ".ts"]⟩ := by
  obtain ⟨front, last, pieces, notUp, named⟩ := exists_last component
  have whole : path = ⟨front ++ [last]⟩ := congrArg FilePath.mk pieces
  refine ⟨front, last, whole, notUp, named, ?_⟩
  unfold generatedPath
  rw [component, if_pos (beq_self_eq_true _), whole, extendedBy_concat]

theorem generatedPath_special {path : FilePath} (special : path.extension? ≠ some "svelte") :
    generatedPath path = path := if_neg (mt eq_of_beq special)

private theorem outputPath_eq (directory path : FilePath) :
    outputPath directory path = directory.join (generatedPath path) := by
  by_cases component : path.extension? = some "svelte"
  · obtain ⟨front, last, rfl, _, _, generated⟩ := generatedPath_component component
    unfold outputPath
    rw [generated, component]
    exact join_extendedBy directory front last ".ts"
  · rw [generatedPath_special component]
    exact if_neg (mt eq_of_beq component)

theorem isName_extended (name : String) : IsName (name ++ ".ts") := by
  have long : 3 ≤ (name ++ ".ts").length := by
    rw [String.length_append]
    exact Nat.le_add_left _ _
  refine ⟨?_, ?_, ?_⟩ <;>
  · intro same
    rw [same] at long
    exact absurd long (by decide)

/-- The extension that components get leads nowhere. -/
theorem generatedPath_stays_iff {path : FilePath} : (generatedPath path).Stays ↔ path.Stays := by
  by_cases component : path.extension? = some "svelte"
  · obtain ⟨front, last, rfl, notUp, _, generated⟩ := generatedPath_component component
    rw [generated]
    have absolute := isAbsolute_concat front last (last ++ ".ts")
    have down := (descends_concat 0 front notUp).trans
      (descends_concat 0 front (isName_extended last).2.2).symm
    exact ⟨fun stays => ⟨absolute.trans stays.relative, down.trans stays.down⟩,
      fun stays => ⟨absolute.symm.trans stays.relative, down.symm.trans stays.down⟩⟩
  · rw [generatedPath_special component]

/-- The path leads into the project, and never out of it. -/
def Project.Encloses (project : Project) (path : FilePath) : Prop :=
  ∃ seen, path.relativeTo? project.root = some seen ∧ seen.Stays

namespace Project

theorem Encloses.relative {path : FilePath} (encloses : project.Encloses path) :
    (project.relative path).Stays := by
  obtain ⟨seen, found, stays⟩ := encloses
  unfold Project.relative relativeTo
  rw [found]
  exact stays

/-- The code of a file of the project is written below the directory. -/
theorem Encloses.target {path : FilePath} (encloses : project.Encloses path) (directory : FilePath) :
    project.target directory path =
      Location.ofPath (project.root.join directory) ++
        Location.ofPath (generatedPath (project.relative path)) := by
  unfold Project.target
  rw [outputPath_eq]
  exact (generatedPath_stays_iff.2 encloses.relative).ofPath_join _

/-- A search finds only files of the project. -/
theorem encloses_candidates (proper : project.tree.Proper) (ignored : List Glob) :
    ∀ path ∈ project.candidates ignored, project.Encloses path := by
  obtain ⟨candidates, _, complete, found⟩ := exists_candidates proper ignored
  rw [found, List.forall_mem_map]
  intro names member
  have held := ((complete names).1 member).held
  exact ⟨⟨names⟩, held.relativeTo?_pathOf proper, stays_names (held.isName proper)⟩

theorem exists_candidates_of_selection {paths : List FilePath} (searches : options.files = [])
    (selected : project.selection options = .ok paths) :
    ∃ ignored, readGlobs (options.ignore ++ usualIgnores) = .ok ignored ∧
      paths = project.candidates ignored := by
  unfold Project.selection at selected
  rw [searches] at selected
  cases read : readGlobs (options.ignore ++ usualIgnores) with
  | error error =>
    rw [read] at selected
    cases selected
  | ok ignored =>
    rw [read] at selected
    cases selected
    exact ⟨ignored, rfl, rfl⟩

/-- A file that is named is one of the project if its path never leads out of where it begins. -/
theorem encloses_join_iff {path : FilePath} (relative : path.isAbsolute = false)
    (within : project.root.parts ≠ []) (spelled : path.pieces ≠ [] ∨ project.root.parts ≠ [.root]) :
    project.Encloses (project.root.join path) ↔ path.Stays := by
  unfold Encloses
  rw [relativeTo?_join relative within spelled]
  simp only [Option.some.injEq, exists_eq_left']
  exact stays_trimmed_iff relative

end Project

/-- A run with an output directory changes only files that generated code is written to. They lie
below the directory if the paths of the files lead into the project and never out of it, so a
directory that holds no such file keeps the files that it was given. -/
theorem changed_places {directory : FilePath} (writes : options.outDir = some directory) :
    let project := options.project here tree
    (∀ place, (run here options tree).tree.file? place ≠ tree.file? place →
      ∃ paths, project.selection options = .ok paths ∧ ∃ path ∈ paths, ∃ file,
        project.outcome? (project.kitPaths options) path = some (.transformed file) ∧
        place = project.target directory path ∧
        (project.Encloses path →
          Location.ofPath (project.root.join directory) <+: place)) ∧
    (∀ paths, project.selection options = .ok paths → (∀ path ∈ paths, project.Encloses path) →
      ∀ input, ¬ Location.ofPath (project.root.join directory) <+: input →
        (run here options tree).tree.file? input = tree.file? input) ∧
    (options.files = [] → tree.Proper → ∀ paths, project.selection options = .ok paths →
      ∀ path ∈ paths, project.Encloses path) ∧
    (∀ file : FilePath, file.isAbsolute = false → project.root.parts ≠ [] →
      (file.pieces ≠ [] ∨ project.root.parts ≠ [.root]) →
        (project.Encloses (project.root.join file) ↔ file.Stays)) ∧
    ∀ path : FilePath, path.Stays ↔
      ∀ other : FilePath, Location.ofPath other <+: Location.ofPath (outputPath other path) := by
  intro project
  have changes (place : Location)
      (changed : (run here options tree).tree.file? place ≠ tree.file? place) :
      ∃ paths, project.selection options = .ok paths ∧ ∃ path ∈ paths, ∃ file,
        project.outcome? (project.kitPaths options) path = some (.transformed file) ∧
        place = project.target directory path ∧
        (project.Encloses path → Location.ofPath (project.root.join directory) <+: place) := by
    obtain ⟨given, paths, same, selected, path, listed, file, became, target⟩ :=
      changed_by_run changed
    obtain rfl : directory = given := Option.some_inj.1 (writes.symm.trans same)
    refine ⟨paths, selected, path, listed, file, became, target, fun encloses => ?_⟩
    rw [target, encloses.target]
    exact List.prefix_append _ _
  refine ⟨changes, ?_, ?_, fun file => Project.encloses_join_iff, fun path => ?_⟩
  · intro paths selected encloses input outside
    by_contra changed
    obtain ⟨again, selectedAgain, path, listed, _, _, _, below⟩ := changes input changed
    obtain rfl : paths = again := Except.ok.inj (selected.symm.trans selectedAgain)
    exact outside (below (encloses path listed))
  · intro searches proper paths selected
    obtain ⟨ignored, _, rfl⟩ := Project.exists_candidates_of_selection searches selected
    exact Project.encloses_candidates proper ignored
  · rw [← generatedPath_stays_iff, stays_iff]
    simp only [outputPath_eq]

/-- A matcher that a search finds gets its code below the directory, and stays as it is. -/
theorem changed_places_found :
    let tree : Tree := ⟨[(["app", "src", "params", "a.ts"], "export function match(p) \x7b\x7d")], []⟩
    let options : Options := { Options.none with outDir := some (.ofText "out") }
    let project := options.project (.ofText "/app") tree
    let written : Location := ["app", "out", "src", "params", "a.ts"]
    options.outDir = some (.ofText "out") ∧ options.files = [] ∧ tree.Proper ∧
      (run (.ofText "/app") options tree).tree.file? written ≠ tree.file? written ∧
      ∃ paths, project.selection options = .ok paths ∧ (∀ path ∈ paths, project.Encloses path) ∧
        (∃ path ∈ paths, ∃ file,
          project.outcome? (project.kitPaths options) path = some (.transformed file) ∧
          written = project.target (.ofText "out") path ∧
          Location.ofPath (project.root.join (.ofText "out")) <+: written) ∧
        (run (.ofText "/app") options tree).tree.file? ["app", "src", "params", "a.ts"] =
          tree.file? ["app", "src", "params", "a.ts"] := by
  intro tree options project written
  have proper : tree.Proper := ⟨by decide, by decide⟩
  have changed : (run (.ofText "/app") options tree).tree.file? written ≠ tree.file? written := by
    decide +kernel
  obtain ⟨changes, kept, found, _⟩ := @changed_places (.ofText "/app") options tree (.ofText "out") rfl
  obtain ⟨paths, selected, path, listed, file, became, target, below⟩ := changes written changed
  have encloses := found rfl proper paths selected
  exact ⟨rfl, rfl, proper, changed, paths, selected, encloses,
    ⟨path, listed, file, became, target, below (encloses path listed)⟩,
    kept paths selected encloses _ (by decide)⟩

/-- A file that is named and lies outside the project is overwritten by its own code, although the
output directory is another one. -/
theorem changed_outside :
    let tree : Tree := ⟨[(["lib", "src", "params", "a.ts"], "export function match(p) \x7b\x7d")],
      [["app"]]⟩
    let options : Options := { Options.none with
      outDir := some (.ofText "../out"), files := [.ofText "../lib/src/params/a.ts"] }
    let outcome := run (.ofText "/app") options tree
    let input : Location := ["lib", "src", "params", "a.ts"]
    Location.ofPath ((options.project (.ofText "/app") tree).root.join (.ofText "../out")) = ["out"] ∧
      tree.file? input = some "export function match(p) \x7b\x7d" ∧
      outcome.tree.file? input = some "export function match(p: string): boolean \x7b\x7d" ∧
      ¬ ["out"] <+: input := by
  decide +kernel

end TypedSvelte.Command
