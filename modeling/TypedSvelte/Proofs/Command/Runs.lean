import TypedSvelte.Command.Run
import TypedSvelte.Proofs.Workspace.Trees

/-!
# How a run ends

A run that transforms files reports on all of them and prints the report, unless the work on one of
them breaks off or a file cannot be written (`run_ends`). What it writes is told report by report
(`deliver_cases`): it changes only files that generated code is written to (`changed_by_run`), and the
last code for a place is there when the run is over (`file?_transformAll`).
-/
namespace TypedSvelte.Command

open FilePath Kit

/-- The project that a run in a directory is about. -/
def Options.project (options : Options) (here : FilePath) (tree : Tree) : Project :=
  ⟨tree, here.join options.root⟩

def Project.kitPaths (project : Project) (options : Options) : KitPaths :=
  places options project.config.1

variable {here root : FilePath} {options : Options} {tree : Tree} {project : Project}
  {paths : List FilePath}

theorem run_eq :
    run here options tree =
      { runAt (options.project here tree) options ((options.project here tree).kitPaths options) with
        stderr := (options.project here tree).config.2 ++
          (runAt (options.project here tree) options
            ((options.project here tree).kitPaths options)).stderr } := rfl

theorem runAt_eq (transforms : options.query? = none) (selected : project.selection options = .ok paths)
    (places : KitPaths) :
    runAt project options places = transformAll project options places paths := by
  unfold runAt
  rw [transforms, selected]

namespace Project

variable {places : KitPaths} {reports : List FileReport}

/-- There are reports exactly if there is one on each file. -/
theorem mapM_report?_eq_some :
    paths.mapM (project.report? places) = some reports ↔
      paths.map (project.report? places) = reports.map some := by
  induction paths generalizing reports with
  | nil => cases reports <;> simp
  | cons path rest ih =>
    rw [List.mapM_cons, List.map_cons]
    cases project.report? places path with
    | none => cases reports <;> simp
    | some report =>
      cases reports <;> simp [Option.bind_eq_some_iff, ih, and_comm]

theorem report?_eq_some {path : FilePath} {report : FileReport} :
    project.report? places path = some report ↔
      report.path = project.relative path ∧ project.outcome? places path = some report.outcome := by
  unfold report?
  obtain ⟨seen, outcome⟩ := report
  cases project.outcome? places path <;> simp [eq_comm]

private theorem paths_of_mapM (found : paths.mapM (project.report? places) = some reports) :
    reports.map (·.path) = paths.map project.relative := by
  have each := mapM_report?_eq_some.1 found
  clear found
  induction paths generalizing reports with
  | nil => cases reports <;> simp_all
  | cons path rest ih =>
    cases reports with
    | nil => cases each
    | cons report others =>
      obtain ⟨told, later⟩ := List.cons.inj each
      exact congrArg₂ List.cons (report?_eq_some.1 told).1 (ih later)

theorem reports?_perm (reported : project.reports? places paths = some reports) :
    (reports.map some).Perm (paths.map (project.report? places)) := by
  obtain ⟨found, each, rfl⟩ := Option.map_eq_some_iff.1 reported
  rw [mapM_report?_eq_some.1 each]
  exact (List.mergeSort_perm _ _).map _

theorem reports?_paths (reported : project.reports? places paths = some reports) :
    (reports.map (·.path)).Perm (paths.map project.relative) := by
  obtain ⟨found, each, rfl⟩ := Option.map_eq_some_iff.1 reported
  rw [← paths_of_mapM each]
  exact (List.mergeSort_perm _ _).map _

theorem reports?_sorted (reported : project.reports? places paths = some reports) :
    reports.Pairwise fun a b : FileReport => (a.path.compare b.path).isLE = true := by
  obtain ⟨found, _, rfl⟩ := Option.map_eq_some_iff.1 reported
  exact List.pairwise_mergeSort
    (fun (a b c : FileReport) => @compare_isLE_trans a.path b.path c.path)
    (fun (a b : FileReport) => compare_isLE_total a.path b.path) _

/-- The reports are those on the files. -/
theorem mem_reports? (reported : project.reports? places paths = some reports)
    {report : FileReport} :
    report ∈ reports ↔ ∃ path ∈ paths, project.report? places path = some report := by
  rw [← List.mem_map, ← (reports?_perm reported).mem_iff]
  simp

/-- Reports on files whose paths are in order are in order. -/
theorem reports?_of_sorted
    (sorted : paths.Pairwise fun a b =>
      ((project.relative a).compare (project.relative b)).isLE = true) :
    project.reports? places paths = paths.mapM (project.report? places) := by
  unfold reports?
  cases found : paths.mapM (project.report? places) with
  | none => rfl
  | some reports =>
    have ordered : (reports.map (·.path)).Pairwise fun a b => (a.compare b).isLE = true :=
      paths_of_mapM found ▸ List.pairwise_map.2 sorted
    exact congrArg some (List.mergeSort_of_pairwise (List.pairwise_map.1 ordered))

/-- There are no reports exactly if the work on a file breaks off. -/
theorem reports?_eq_none_iff :
    project.reports? places paths = none ↔ ∃ path ∈ paths, project.outcome? places path = none := by
  unfold reports?
  rw [Option.map_eq_none_iff]
  induction paths with
  | nil => simp
  | cons path rest ih =>
    have here : project.report? places path = none ↔ project.outcome? places path = none :=
      Option.map_eq_none_iff
    rw [List.mapM_cons, List.exists_mem_cons_iff, ← ih, ← here]
    cases project.report? places path <;> cases rest.mapM (project.report? places) <;> simp

end Project

/-- What a delivery does with the next report: nothing, or it writes the code, and then ends or goes
on. -/
theorem deliver_cases (emit : Bool) (directory? : Option FilePath) (tree : Tree) (report : FileReport)
    (rest : List FileReport) :
    (report.code? = none ∧
        deliver emit directory? tree (report :: rest) = deliver emit directory? tree rest) ∨
      ∃ code, report.code? = some code ∧
        ((∃ error, (writeCode directory? tree report.path code).2 = some error ∧
            (deliver emit directory? tree (report :: rest)).tree =
              (writeCode directory? tree report.path code).1 ∧
            (deliver emit directory? tree (report :: rest)).error = some error) ∨
          (writeCode directory? tree report.path code).2 = none ∧
            ∃ shown, deliver emit directory? tree (report :: rest) =
              (deliver emit directory? (writeCode directory? tree report.path code).1 rest).after
                shown) := by
  generalize delivered : deliver emit directory? tree (report :: rest) = delivery
  unfold deliver at delivered
  cases holds : report.code? with
  | none =>
    rw [holds] at delivered
    exact .inl ⟨rfl, delivered.symm⟩
  | some code =>
    rw [holds] at delivered
    refine .inr ⟨code, rfl, ?_⟩
    dsimp only at delivered
    generalize writeCode directory? tree report.path code = written at delivered ⊢
    obtain ⟨grown, error?⟩ := written
    cases error? with
    | some error =>
      rw [← delivered]
      exact .inl ⟨error, rfl, rfl, rfl⟩
    | none => exact .inr ⟨rfl, _, delivered.symm⟩

/-- Nothing but writing ends a delivery before its time. -/
theorem writeFailed_of_deliver {emit : Bool} {directory : Option FilePath} {error : RunError}
    {reports : List FileReport} (ended : (deliver emit directory tree reports).error = some error) :
    ∃ path fault, error = .writeFailed path fault := by
  induction reports generalizing tree with
  | nil => cases ended
  | cons report rest ih =>
    rcases deliver_cases emit directory tree report rest with
      ⟨_, same⟩ | ⟨code, _, ⟨_, written, _, failed⟩ | ⟨_, _, same⟩⟩
    · rw [same] at ended
      exact ih ended
    · cases failed.symm.trans ended
      cases directory with
      | none => cases written
      | some directory =>
        obtain ⟨fault, _, failed⟩ := Option.map_eq_some_iff.1 written
        exact ⟨_, fault, failed.symm⟩
    · rw [same] at ended
      exact ih ended

/-- The delivery of reports ends with the counts, or a file cannot be written. -/
theorem conclude_ends (project : Project) (options : Options) (reports : List FileReport) :
    ((project.conclude options reports).result = .ok (Summary.ofReports reports) ∧
        ∃ before, (if options.emit then (project.conclude options reports).stderr
          else (project.conclude options reports).stdout) =
            before ++ reportText options.format reports) ∨
      ∃ path fault,
        (project.conclude options reports).result = .error (.failed (.writeFailed path fault)) := by
  unfold Project.conclude
  dsimp only
  split
  · rename_i error ended
    obtain ⟨path, fault, rfl⟩ := writeFailed_of_deliver ended
    exact .inr ⟨path, fault, rfl⟩
  · left
    cases options.emit with
    | true => exact ⟨rfl, "", String.empty_append.symm⟩
    | false => exact ⟨rfl, _, rfl⟩

/-- A run that has reports delivers them. -/
theorem transformAll_of_reports {places : KitPaths} {reports : List FileReport}
    (reported : project.reports? places paths = some reports) :
    transformAll project options places paths = project.conclude options reports := by
  unfold transformAll
  rw [reported]

/-- A run without reports delivers nothing. -/
theorem transformAll_of_brokenOff {places : KitPaths}
    (brokenOff : project.reports? places paths = none) :
    transformAll project options places paths = ⟨project.tree, "", "", .error .brokenOff⟩ := by
  unfold transformAll
  rw [brokenOff]

/-- How a run that transforms files ends: the work on one of them breaks off, and nothing is
delivered, or the run counts and tells what became of them, unless a file cannot be written. -/
theorem run_ends (transforms : options.query? = none)
    (selected : (options.project here tree).selection options = .ok paths) :
    let project := options.project here tree
    let outcome := run here options tree
    (project.reports? (project.kitPaths options) paths = none ∧ outcome.result = .error .brokenOff ∧
        outcome.tree = tree ∧ outcome.stdout = "" ∧ outcome.stderr = project.config.2) ∨
      ∃ reports, project.reports? (project.kitPaths options) paths = some reports ∧
        (outcome.result = .ok (Summary.ofReports reports) ∧
            (∃ before, (if options.emit then outcome.stderr else outcome.stdout) =
              before ++ reportText options.format reports) ∨
          ∃ path fault, outcome.result = .error (.failed (.writeFailed path fault))) := by
  intro project outcome
  have ran : outcome =
      { transformAll project options (project.kitPaths options) paths with
        stderr := project.config.2 ++
          (transformAll project options (project.kitPaths options) paths).stderr } := by
    rw [← runAt_eq transforms selected]
    rfl
  cases reported : project.reports? (project.kitPaths options) paths with
  | none =>
    rw [transformAll_of_brokenOff reported] at ran
    rw [ran]
    exact .inl ⟨rfl, rfl, rfl, rfl, String.append_empty⟩
  | some reports =>
    rw [transformAll_of_reports reported] at ran
    rw [ran]
    refine .inr ⟨reports, rfl, ?_⟩
    rcases conclude_ends project options reports with ⟨result, before, text⟩ | failed
    · left
      refine ⟨result, ?_⟩
      cases emit : options.emit with
      | true =>
        rw [emit, if_pos rfl] at text
        rw [if_pos rfl, text]
        exact ⟨_, String.append_assoc.symm⟩
      | false =>
        rw [emit, if_neg Bool.false_ne_true] at text
        exact ⟨before, text⟩
    · exact .inr failed

/-- The place that the generated code of a file is written to. -/
def Project.target (project : Project) (directory path : FilePath) : Location :=
  Location.ofPath (outputPath (project.root.join directory) (project.relative path))

theorem tree_conclude (project : Project) (options : Options) (reports : List FileReport) :
    (project.conclude options reports).tree =
      (deliver options.emit (options.outDir.map project.root.join) project.tree reports).tree := by
  unfold Project.conclude
  dsimp only
  split
  · rfl
  · split <;> rfl

theorem exists_transformed {report : FileReport} {code : String} (holds : report.code? = some code) :
    ∃ file, report.outcome = .transformed file ∧ file.code = code := by
  unfold FileReport.code? at holds
  split at holds
  · rename_i file became
    exact ⟨file, became, Option.some_inj.1 holds⟩
  · cases holds

/-- A delivery changes only files that other code is written to. -/
theorem differs_by_deliver {emit : Bool} {directory? : Option FilePath}
    {reports : List FileReport} {place : Location}
    (changed : (deliver emit directory? tree reports).tree.file? place ≠ tree.file? place) :
    ∃ directory, directory? = some directory ∧ ∃ report ∈ reports, ∃ code,
      report.code? = some code ∧ place = Location.ofPath (outputPath directory report.path) ∧
        tree.file? place ≠ some code := by
  induction reports generalizing tree with
  | nil => exact absurd rfl changed
  | cons report rest ih =>
    rcases deliver_cases emit directory? tree report rest with ⟨_, same⟩ | ⟨code, holds, written⟩
    · rw [same] at changed
      obtain ⟨directory, given, other, member, found⟩ := ih changed
      exact ⟨directory, given, other, List.mem_cons_of_mem report member, found⟩
    · by_cases here : (writeCode directory? tree report.path code).1.file? place = tree.file? place
      · rw [← here] at changed ⊢
        rcases written with ⟨_, _, same, _⟩ | ⟨_, _, same⟩
        · rw [same] at changed
          exact absurd rfl changed
        · rw [same] at changed
          obtain ⟨directory, given, other, member, found⟩ := ih changed
          exact ⟨directory, given, other, List.mem_cons_of_mem report member, found⟩
      · cases directory? with
        | none => exact absurd rfl here
        | some directory =>
          rcases Tree.write_cases tree (outputPath directory report.path) code with
            ⟨_, kept⟩ | ⟨_, put⟩
          · exact absurd (kept place) here
          · by_cases target : place = Location.ofPath (outputPath directory report.path)
            · refine ⟨directory, rfl, report, List.mem_cons_self, code, holds, target, ?_⟩
              exact fun same => here ((put place).trans ((if_pos target).trans same.symm))
            · exact absurd ((put place).trans (if_neg target)) here

/-- Code that is written is where its path leads, and no other file is changed. -/
theorem file?_writeCode {directory path : FilePath} {code : String}
    (done : (writeCode (some directory) tree path code).2 = none) (place : Location) :
    (writeCode (some directory) tree path code).1.file? place =
      if place = Location.ofPath (outputPath directory path) then some code else tree.file? place := by
  have written : (tree.write (outputPath directory path) code).2 = none := Option.map_eq_none_iff.1 done
  rcases Tree.write_cases tree (outputPath directory path) code with ⟨failed, _⟩ | ⟨_, put⟩
  · exact absurd written failed
  · exact put place

/-- A delivery that is not ended leaves the code at a place that all code with this target is. -/
theorem file?_deliver_kept {emit : Bool} {directory : FilePath} {reports : List FileReport}
    {place : Location} {code : String}
    (done : (deliver emit (some directory) tree reports).error = none)
    (agree : ∀ report ∈ reports, ∀ text, report.code? = some text →
      Location.ofPath (outputPath directory report.path) = place → text = code)
    (before : tree.file? place = some code) :
    (deliver emit (some directory) tree reports).tree.file? place = some code := by
  induction reports generalizing tree with
  | nil => exact before
  | cons report rest ih =>
    have later := fun other member => agree other (List.mem_cons_of_mem report member)
    rcases deliver_cases emit (some directory) tree report rest with
      ⟨_, same⟩ | ⟨text, holds, ⟨_, _, _, failed⟩ | ⟨written, _, same⟩⟩
    · rw [same] at done ⊢
      exact ih done later before
    · cases failed.symm.trans done
    · rw [same] at done ⊢
      refine ih done later ?_
      rw [file?_writeCode written]
      split
      · rename_i here
        rw [agree report List.mem_cons_self text holds here.symm]
      · exact before

/-- The last code for a place is there when a delivery is over. -/
theorem file?_deliver {emit : Bool} {directory : FilePath} {report : FileReport}
    {earlier later : List FileReport} {code : String}
    (done : (deliver emit (some directory) tree (earlier ++ report :: later)).error = none)
    (holds : report.code? = some code)
    (agree : ∀ other ∈ later, ∀ text, other.code? = some text →
      Location.ofPath (outputPath directory other.path) =
        Location.ofPath (outputPath directory report.path) → text = code) :
    (deliver emit (some directory) tree (earlier ++ report :: later)).tree.file?
      (Location.ofPath (outputPath directory report.path)) = some code := by
  induction earlier generalizing tree with
  | nil =>
    rw [List.nil_append] at done ⊢
    rcases deliver_cases emit (some directory) tree report later with
      ⟨none, _⟩ | ⟨text, found, ⟨_, _, _, failed⟩ | ⟨written, _, same⟩⟩
    · cases none.symm.trans holds
    · cases failed.symm.trans done
    · cases found.symm.trans holds
      rw [same] at done ⊢
      exact file?_deliver_kept done agree ((file?_writeCode written _).trans (if_pos rfl))
  | cons first earlier ih =>
    rw [List.cons_append] at done ⊢
    rcases deliver_cases emit (some directory) tree first (earlier ++ report :: later) with
      ⟨_, same⟩ | ⟨_, _, ⟨_, _, _, failed⟩ | ⟨_, _, same⟩⟩
    · rw [same] at done ⊢
      exact ih done
    · cases failed.symm.trans done
    · rw [same] at done ⊢
      exact ih done

/-- A run that is not ended before its time leaves its code at a place that all code with this
target is that does not come earlier. -/
theorem file?_transformAll {places : KitPaths} {directory path : FilePath} {file : Transformed}
    {summary : Summary} (writes : options.outDir = some directory)
    (done : (transformAll project options places paths).result = .ok summary) (listed : path ∈ paths)
    (became : project.outcome? places path = some (.transformed file))
    (agree : ∀ other ∈ paths, ∀ otherFile,
      project.outcome? places other = some (.transformed otherFile) →
        project.target directory other = project.target directory path →
          ((project.relative path).compare (project.relative other)).isLE = true →
            otherFile.code = file.code) :
    (transformAll project options places paths).tree.file? (project.target directory path) =
      some file.code := by
  cases reported : project.reports? places paths with
  | none =>
    rw [transformAll_of_brokenOff reported] at done
    cases done
  | some reports =>
    rw [transformAll_of_reports reported] at done ⊢
    have delivered : (deliver options.emit (some (project.root.join directory)) project.tree
        reports).error = none := by
      unfold Project.conclude at done
      rw [writes] at done
      dsimp only at done
      split at done
      · cases done
      · assumption
    have mine : (⟨project.relative path, .transformed file⟩ : FileReport) ∈ reports :=
      (Project.mem_reports? reported).2 ⟨path, listed, Project.report?_eq_some.2 ⟨rfl, became⟩⟩
    obtain ⟨earlier, later, rfl⟩ := List.append_of_mem mine
    rw [tree_conclude, writes]
    refine file?_deliver delivered rfl fun report member text holds same => ?_
    have after := (List.pairwise_cons.1
      (List.pairwise_append.1 (Project.reports?_sorted reported)).2.1).1 report member
    obtain ⟨other, otherListed, told⟩ := (Project.mem_reports? reported).1
      (List.mem_append_right _ (List.mem_cons_of_mem _ member))
    obtain ⟨seen, outcome⟩ := Project.report?_eq_some.1 told
    obtain ⟨otherFile, otherBecame, rfl⟩ := exists_transformed holds
    rw [otherBecame] at outcome
    rw [seen] at after same
    exact agree other otherListed otherFile outcome same after

/-- A run changes only files that other generated code of a selected file is written to. -/
theorem differs_by_run {place : Location}
    (changed : (run here options tree).tree.file? place ≠ tree.file? place) :
    ∃ directory paths, options.outDir = some directory ∧
      (options.project here tree).selection options = .ok paths ∧
      ∃ path ∈ paths, ∃ file,
        (options.project here tree).outcome? ((options.project here tree).kitPaths options) path =
          some (.transformed file) ∧
        place = (options.project here tree).target directory path ∧
        tree.file? place ≠ some file.code := by
  cases query : options.query? with
  | some query =>
    rw [run_eq] at changed
    unfold runAt at changed
    rw [query] at changed
    dsimp only at changed
    split at changed <;> exact absurd rfl changed
  | none =>
    cases selected : (options.project here tree).selection options with
    | error error =>
      rw [run_eq] at changed
      unfold runAt at changed
      rw [query, selected] at changed
      exact absurd rfl changed
    | ok paths =>
      rw [run_eq, runAt_eq query selected] at changed
      dsimp only at changed
      cases reported : (options.project here tree).reports?
          ((options.project here tree).kitPaths options) paths with
      | none =>
        rw [transformAll_of_brokenOff reported] at changed
        exact absurd rfl changed
      | some reports =>
        rw [transformAll_of_reports reported, tree_conclude] at changed
        obtain ⟨directory, given, report, member, code, holds, same, differs⟩ :=
          differs_by_deliver changed
        obtain ⟨directory, asked, rfl⟩ := Option.map_eq_some_iff.1 given
        obtain ⟨path, listed, told⟩ := (Project.mem_reports? reported).1 member
        obtain ⟨seen, outcome⟩ := Project.report?_eq_some.1 told
        obtain ⟨file, became, rfl⟩ := exists_transformed holds
        rw [became] at outcome
        rw [seen] at same
        exact ⟨directory, paths, asked, rfl, path, listed, file, outcome, same, differs⟩

/-- A run changes only files that the generated code of a selected file is written to. -/
theorem changed_by_run {place : Location}
    (changed : (run here options tree).tree.file? place ≠ tree.file? place) :
    ∃ directory paths, options.outDir = some directory ∧
      (options.project here tree).selection options = .ok paths ∧
      ∃ path ∈ paths, ∃ file,
        (options.project here tree).outcome? ((options.project here tree).kitPaths options) path =
          some (.transformed file) ∧
        place = (options.project here tree).target directory path := by
  obtain ⟨directory, paths, writes, selected, path, listed, file, became, target, _⟩ :=
    differs_by_run changed
  exact ⟨directory, paths, writes, selected, path, listed, file, became, target⟩

end TypedSvelte.Command
