import Mathlib.Data.List.Nodup
import Mathlib.Data.List.Perm.Basic
import TypedSvelte.Proofs.Command.Runs

/-!
# The order in which files are found

A run that searches a project finds its files in the order in which the tree lists them. The reports
are put into the order of their paths, which no two of them share, so neither the reports nor
anything that is printed or written depends on the order in which files are found
(`run_reorders`).
-/
namespace TypedSvelte.Command

open FilePath Kit

variable {tree other : Tree} {root : FilePath} {options : Options}

/-- The runs print the same and end alike, and leave trees that agree. -/
structure Outcome.Agrees (outcome again : Outcome) : Prop where
  stdout : again.stdout = outcome.stdout
  stderr : again.stderr = outcome.stderr
  result : again.result = outcome.result
  tree : outcome.tree.Agrees again.tree

/-- What becomes of a file depends on what is read. -/
theorem Project.outcome?_congr {places : KitPaths} {path : FilePath}
    (same : other.read path = tree.read path) :
    (Project.mk other root).outcome? places path = (Project.mk tree root).outcome? places path := by
  unfold Project.outcome?
  rw [same]
  rfl

section

variable (agrees : tree.Agrees other)

include agrees

private theorem config_agrees : (Project.mk other root).config = (Project.mk tree root).config := by
  have path : (Project.mk other root).configPath? = (Project.mk tree root).configPath? := by
    have has : other.has = tree.has := funext agrees.has
    unfold Project.configPath?
    rw [has]
  have configured (path : FilePath) :
      (Project.mk other root).configAt path = (Project.mk tree root).configAt path := by
    unfold Project.configAt
    rw [agrees.read]
  unfold Project.config
  rw [path]
  split
  · rfl
  · rw [configured]

theorem reports?_agrees (places : KitPaths) (paths : List FilePath) :
    (Project.mk other root).reports? places paths = (Project.mk tree root).reports? places paths := by
  have report : (Project.mk other root).report? places = (Project.mk tree root).report? places := by
    funext path
    exact congrArg (Option.map (FileReport.mk _)) (Project.outcome?_congr (agrees.read path))
  unfold Project.reports?
  rw [report]

/-- Code is delivered alike to trees that agree. -/
theorem deliver_agrees (emit : Bool) (directory : Option FilePath) (reports : List FileReport) :
    (deliver emit directory other reports).stdout = (deliver emit directory tree reports).stdout ∧
      (deliver emit directory other reports).error = (deliver emit directory tree reports).error ∧
      (deliver emit directory tree reports).tree.Agrees
        (deliver emit directory other reports).tree := by
  induction reports generalizing tree other with
  | nil => exact ⟨rfl, rfl, agrees⟩
  | cons report rest ih =>
    unfold deliver
    cases report.code? with
    | none => exact ih agrees
    | some code =>
      have written : (writeCode directory other report.path code).2 =
            (writeCode directory tree report.path code).2 ∧
          (writeCode directory tree report.path code).1.Agrees
            (writeCode directory other report.path code).1 := by
        unfold writeCode
        cases directory with
        | none => exact ⟨rfl, agrees⟩
        | some directory =>
          obtain ⟨fault, grown⟩ := agrees.write (outputPath directory report.path) code
          exact ⟨congrArg (Option.map (RunError.writeFailed _)) fault, grown⟩
      dsimp only
      generalize writeCode directory tree report.path code = one,
        writeCode directory other report.path code = again at written ⊢
      obtain ⟨grown, _⟩ := one
      obtain ⟨again, fault?⟩ := again
      obtain ⟨rfl, grownAgrees⟩ := written
      cases fault? with
      | some error => exact ⟨rfl, rfl, grownAgrees⟩
      | none =>
        obtain ⟨stdout, error, later⟩ := ih grownAgrees
        exact ⟨congrArg ((if emit then printed report.path code else "") ++ ·) stdout, error, later⟩

end

namespace Project

/-- The path of the file that names lead to from the project. -/
def pathOf (project : Project) (names : Location) : FilePath := project.root.join ⟨names⟩

def Holds (project : Project) (names : Location) : Prop :=
  ∃ directory, project.tree.locate project.root.parts = .ok directory ∧
    directory ++ names ∈ project.tree.files.map (·.1)

/-- The names lead from the project to a file that could need generated code: no declaration file, a
component or a script, and no file that a glob stands for. -/
structure Candidate (project : Project) (ignored : List Glob) (names : Location) : Prop where
  held : project.Holds names
  defines : ∀ name, (project.pathOf names).fileName? = some name →
    ¬ ".d.ts".toList <:+ name.toList
  extension : ∃ extension ∈ ["svelte", "ts", "js"],
    (project.pathOf names).extension? = some extension
  searched : ∀ glob ∈ ignored, glob.accepts (FilePath.mk names).text = false

/-- The reports tell of all candidates of a project, of each one once and in the order of their
paths, and every candidate counts. -/
structure Accounts (project : Project) (places : KitPaths) (ignored : List Glob)
    (candidates : List Location) (reports : List FileReport) : Prop where
  distinct : candidates.Nodup
  complete : ∀ names, names ∈ candidates ↔ project.Candidate ignored names
  once : (reports.map (·.path)).Perm (candidates.map FilePath.mk)
  told : ∀ report ∈ reports,
    project.outcome? places (project.root.join report.path) = some report.outcome
  ordered : reports.Pairwise fun a b : FileReport => a.path.compare b.path = .lt
  counted : (Summary.ofReports reports).transformed + (Summary.ofReports reports).skipped +
    (Summary.ofReports reports).failed = candidates.length

section

variable {project : Project} {names : Location}

theorem Holds.isName (held : project.Holds names) (proper : project.tree.Proper) :
    ∀ name ∈ names, IsName name := by
  obtain ⟨directory, _, member⟩ := held
  obtain ⟨file, listed, place⟩ := List.mem_map.1 member
  have named := (proper.named file listed).2
  rw [place] at named
  exact fun name member => named name (List.mem_append_right directory member)

/-- The root of the tree is no file. -/
theorem Holds.spelled (held : project.Holds names) (proper : project.tree.Proper) :
    names ≠ [] ∨ project.root.parts ≠ [.root] := by
  obtain ⟨directory, located, member⟩ := held
  obtain ⟨file, listed, place⟩ := List.mem_map.1 member
  by_contra both
  obtain ⟨noNames, root⟩ := not_or.1 both
  rw [not_not] at noNames root
  have top : directory = [] := by
    rw [root] at located
    exact Tree.eq_follow_of_locate located
  rw [top, noNames] at place
  exact (proper.named file listed).1 place

theorem Holds.relativeTo?_pathOf (held : project.Holds names) (proper : project.tree.Proper) :
    (project.pathOf names).relativeTo? project.root = some ⟨names⟩ :=
  relativeTo?_join_names (held.isName proper) (held.spelled proper)

/-- The names that lead to a file are its path as seen from the project. -/
theorem Holds.relative_pathOf (held : project.Holds names) (proper : project.tree.Proper) :
    project.relative (project.pathOf names) = ⟨names⟩ :=
  congrArg (Option.getD · _) (held.relativeTo?_pathOf proper)

theorem Holds.ofPath_pathOf (held : project.Holds names) (proper : project.tree.Proper) :
    Location.ofPath (project.pathOf names) = Location.ofPath project.root ++ names :=
  (Location.ofPath_join (isAbsolute_names (held.isName proper))).trans
    (Location.foldl_names _ (held.isName proper))

private theorem isCandidate_eq_true {path : FilePath} :
    isCandidate path = true ↔
      (∀ name, path.fileName? = some name → ¬ ".d.ts".toList <:+ name.toList) ∧
        ∃ extension ∈ ["svelte", "ts", "js"], path.extension? = some extension := by
  unfold isCandidate
  cases path.fileName? <;> cases path.extension? <;>
    simp [or_assoc, ← List.isSuffixOf_iff_suffix]

/-- The candidates are found at different places, each one under the names that lead to it. -/
theorem exists_candidates (proper : project.tree.Proper) (ignored : List Glob) :
    ∃ candidates : List Location, candidates.Nodup ∧
      (∀ names, names ∈ candidates ↔ project.Candidate ignored names) ∧
      project.candidates ignored = candidates.map project.pathOf := by
  cases located : project.tree.locate project.root.parts with
  | error fault =>
    refine ⟨[], List.nodup_nil, fun names => ⟨nofun, fun candidate => ?_⟩, ?_⟩
    · obtain ⟨directory, found, _⟩ := candidate.held
      rw [located] at found
      cases found
    · unfold Project.candidates Project.files
      rw [located]
      rfl
  | ok directory =>
    let kept (names : Location) : Bool :=
      isCandidate (project.pathOf names) &&
        !ignored.any fun glob => glob.accepts (project.relative (project.pathOf names)).text
    have below (names : Location) :
        names ∈ project.tree.filesBelow directory ↔ project.Holds names := by
      unfold Holds Tree.filesBelow
      rw [located]
      simp only [Except.ok.injEq, exists_eq_left', List.mem_filterMap, List.mem_map,
        Option.ite_none_right_eq_some, Option.some.injEq, List.isPrefixOf_iff_prefix]
      constructor
      · rintro ⟨file, listed, ⟨names, place⟩, rfl⟩
        exact ⟨file, listed, by rw [← place, List.drop_left]⟩
      · rintro ⟨file, listed, place⟩
        exact ⟨file, listed, ⟨names, place.symm⟩, by rw [place, List.drop_left]⟩
    refine ⟨(project.tree.filesBelow directory).filter kept, ?_, fun names => ?_, ?_⟩
    · apply List.Nodup.filter
      have places := proper.distinct.filterMap (f := fun place =>
        if directory.isPrefixOf place then some (place.drop directory.length) else none) ?_
      · rwa [List.filterMap_map] at places
      · intro place other names one two
        simp only [Option.mem_def, Option.ite_none_right_eq_some, Option.some.injEq,
          List.isPrefixOf_iff_prefix] at one two
        rw [← List.prefix_iff_eq_append.1 one.1, one.2, ← List.prefix_iff_eq_append.1 two.1, two.2]
    · rw [List.mem_filter, below]
      constructor
      · rintro ⟨held, passes⟩
        obtain ⟨candidate, searched⟩ := Bool.and_eq_true_iff.1 passes
        obtain ⟨defines, extension⟩ := isCandidate_eq_true.1 candidate
        rw [held.relative_pathOf proper] at searched
        exact ⟨held, defines, extension, by simpa using searched⟩
      · rintro ⟨held, defines, extension, searched⟩
        refine ⟨held, Bool.and_eq_true_iff.2 ⟨isCandidate_eq_true.2 ⟨defines, extension⟩, ?_⟩⟩
        rw [held.relative_pathOf proper]
        simpa using searched
    · unfold Project.candidates Project.files
      rw [located, List.filter_map]
      rfl

/-- The order in which a tree lists its files makes no candidate. -/
theorem candidate_reorders (reorders : tree.Reorders other) (proper : tree.Proper)
    (ignored : List Glob) :
    (Project.mk other root).Candidate ignored names ↔
      (Project.mk tree root).Candidate ignored names := by
  have held : (Project.mk other root).Holds names ↔ (Project.mk tree root).Holds names := by
    unfold Holds
    simp only [(reorders.agrees proper.distinct).locate, (reorders.files.map _).mem_iff]
  exact ⟨fun candidate => { candidate with held := held.1 candidate.held },
    fun candidate => { candidate with held := held.2 candidate.held }⟩

end

private theorem ofReports_total (reports : List FileReport) :
    (Summary.ofReports reports).transformed + (Summary.ofReports reports).skipped +
      (Summary.ofReports reports).failed = reports.length := by
  induction reports with
  | nil => rfl
  | cons report rest ih =>
    change (Summary.count report (Summary.ofReports rest)).transformed +
      (Summary.count report (Summary.ofReports rest)).skipped +
      (Summary.count report (Summary.ofReports rest)).failed = rest.length + 1
    unfold Summary.count
    cases report.outcome <;> dsimp only <;> omega

section

variable {project : Project} {places : KitPaths}

/-- Reports on files at different places do not depend on the order in which the files come. -/
theorem reports?_eq_of_perm {paths again : List FilePath} (perm : again.Perm paths)
    (distinct : ∀ a ∈ paths, ∀ b ∈ paths,
      (project.relative a).parts = (project.relative b).parts → a = b) :
    project.reports? places again = project.reports? places paths := by
  cases reported : project.reports? places paths with
  | none =>
    obtain ⟨path, listed, brokenOff⟩ := reports?_eq_none_iff.1 reported
    exact reports?_eq_none_iff.2 ⟨path, perm.mem_iff.2 listed, brokenOff⟩
  | some reports =>
    cases reportedAgain : project.reports? places again with
    | none =>
      obtain ⟨path, listed, brokenOff⟩ := reports?_eq_none_iff.1 reportedAgain
      have none := reports?_eq_none_iff.2 ⟨path, perm.mem_iff.1 listed, brokenOff⟩
      cases reported.symm.trans none
    | some reportsAgain =>
      have permuted : reportsAgain.Perm reports :=
        (List.map_perm_map_iff (fun _ _ => Option.some.inj)).1
          ((reports?_perm reportedAgain).trans ((perm.map _).trans (reports?_perm reported).symm))
      refine congrArg some (List.Perm.eq_of_pairwise ?_ (reports?_sorted reportedAgain)
        (reports?_sorted reported) permuted)
      intro a b left right ab ba
      obtain ⟨one, listed, told⟩ := (mem_reports? reported).1 (permuted.mem_iff.1 left)
      obtain ⟨two, listedToo, toldToo⟩ := (mem_reports? reported).1 right
      have same := parts_of_isLE ab ba
      rw [(report?_eq_some.1 told).1, (report?_eq_some.1 toldToo).1] at same
      cases distinct one listed two listedToo same
      exact Option.some.inj (told.symm.trans toldToo)

section

variable {ignored : List Glob} {candidates : List Location} (proper : project.tree.Proper)
  (complete : ∀ names, names ∈ candidates ↔ project.Candidate ignored names)

include proper complete

/-- Candidates whose paths have the same parts are the same. -/
theorem pathOf_distinct :
    ∀ a ∈ candidates.map project.pathOf, ∀ b ∈ candidates.map project.pathOf,
      (project.relative a).parts = (project.relative b).parts → a = b := by
  rw [List.forall_mem_map]
  intro one oneListed
  rw [List.forall_mem_map]
  intro two twoListed same
  have oneHeld := ((complete one).1 oneListed).held
  have twoHeld := ((complete two).1 twoListed).held
  rw [oneHeld.relative_pathOf proper, twoHeld.relative_pathOf proper] at same
  exact congrArg project.pathOf
    (names_of_parts (oneHeld.isName proper) (twoHeld.isName proper) same)

/-- The reports on all candidates tell of each one once. -/
theorem accounts (distinct : candidates.Nodup) {reports : List FileReport}
    (reported : project.reports? places (candidates.map project.pathOf) = some reports) :
    project.Accounts places ignored candidates reports := by
  have seen {names : Location} (member : names ∈ candidates) :
      project.relative (project.pathOf names) = ⟨names⟩ :=
    ((complete names).1 member).held.relative_pathOf proper
  have about {report : FileReport} (member : report ∈ reports) :
      ∃ names ∈ candidates, report.path = ⟨names⟩ ∧
        project.outcome? places (project.pathOf names) = some report.outcome := by
    obtain ⟨path, listed, told⟩ := (mem_reports? reported).1 member
    obtain ⟨names, candidate, rfl⟩ := List.mem_map.1 listed
    obtain ⟨path, outcome⟩ := report?_eq_some.1 told
    exact ⟨names, candidate, path.trans (seen candidate), outcome⟩
  have once : (reports.map (·.path)).Perm (candidates.map FilePath.mk) := by
    have asSeen : candidates.map (project.relative ∘ project.pathOf) = candidates.map FilePath.mk :=
      List.map_congr_left fun names => seen
    rw [← asSeen, ← List.map_map]
    exact reports?_paths reported
  refine ⟨distinct, complete, once, fun report member => ?_, ?_, ?_⟩
  · obtain ⟨names, _, path, outcome⟩ := about member
    rw [path]
    exact outcome
  · have paths : (reports.map (·.path)).Nodup :=
      once.nodup_iff.2 (distinct.map fun _ _ => FilePath.mk.inj)
    refine ((reports?_sorted reported).and (List.pairwise_map.1 paths)).imp_of_mem ?_
    rintro a b left right ⟨before, differ⟩
    cases order : a.path.compare b.path with
    | lt => rfl
    | eq =>
      obtain ⟨one, listed, onePath, _⟩ := about left
      obtain ⟨two, other, twoPath, _⟩ := about right
      have same := parts_of_compare order
      rw [onePath, twoPath] at same differ
      exact absurd (congrArg FilePath.mk (names_of_parts (((complete one).1 listed).held.isName proper)
        (((complete two).1 other).held.isName proper) same)) differ
    | gt =>
      rw [order] at before
      cases before
  · rw [ofReports_total, ← List.length_map (f := (·.path)), once.length_eq, List.length_map]

end

end

end Project

private theorem conclude_agrees (agrees : tree.Agrees other) (options : Options)
    (reports : List FileReport) :
    ((Project.mk tree root).conclude options reports).Agrees
      ((Project.mk other root).conclude options reports) := by
  unfold Project.conclude
  dsimp only
  obtain ⟨stdout, error, grown⟩ :=
    deliver_agrees agrees options.emit (options.outDir.map root.join) reports
  rw [error]
  split
  · exact ⟨stdout, rfl, rfl, grown⟩
  · split
    · exact ⟨stdout, rfl, rfl, grown⟩
    · exact ⟨congrArg (· ++ _) stdout, rfl, rfl, grown⟩

section

variable (proper : tree.Proper) (reorders : tree.Reorders other)

include proper reorders

theorem Project.reports?_reorders (places : KitPaths) (ignored : List Glob) :
    (Project.mk other root).reports? places ((Project.mk other root).candidates ignored) =
      (Project.mk tree root).reports? places ((Project.mk tree root).candidates ignored) := by
  have agrees := reorders.agrees proper.distinct
  obtain ⟨candidates, distinct, complete, found⟩ :=
    @exists_candidates ⟨tree, root⟩ proper ignored
  obtain ⟨again, againDistinct, againComplete, foundAgain⟩ :=
    @exists_candidates ⟨other, root⟩ (reorders.proper proper) ignored
  have perm : again.Perm candidates := (List.perm_ext_iff_of_nodup againDistinct distinct).2
    fun names => (againComplete names).trans
      ((candidate_reorders reorders proper ignored).trans (complete names).symm)
  rw [reports?_agrees agrees, found, foundAgain]
  exact reports?_eq_of_perm (perm.map _) (pathOf_distinct proper complete)

private theorem runAt_reorders (places : KitPaths) (transforms : options.query? = none)
    (searches : options.files = []) :
    (runAt ⟨tree, root⟩ options places).Agrees (runAt ⟨other, root⟩ options places) := by
  have agrees := reorders.agrees proper.distinct
  unfold runAt Project.selection
  rw [transforms, searches]
  cases readGlobs (options.ignore ++ usualIgnores) with
  | error error => exact ⟨rfl, rfl, rfl, agrees⟩
  | ok ignored =>
    change (transformAll _ options places _).Agrees (transformAll _ options places _)
    unfold transformAll
    rw [Project.reports?_reorders proper reorders places ignored]
    split
    · exact conclude_agrees agrees options _
    · exact ⟨rfl, rfl, rfl, agrees⟩

end

/-- A run that searches the project does not depend on the order in which the tree lists its files:
another order leaves the same files and has the same result and the same things printed. Either
it reports on every file that could need generated code once, in the order of the paths, and all
of them count, or the work on one of them breaks off, and with it the run: there are no reports and
no counts, nothing is printed and nothing is written. -/
theorem run_reorders {here : FilePath} (proper : tree.Proper) (reorders : tree.Reorders other)
    (transforms : options.query? = none) (searches : options.files = []) :
    let project := options.project here tree
    let places := project.kitPaths options
    let outcome := run here options tree
    outcome.Agrees (run here options other) ∧
      ∀ ignored, readGlobs (options.ignore ++ usualIgnores) = .ok ignored →
        ((∃ names, project.Candidate ignored names ∧
            project.outcome? places (project.pathOf names) = none) ∧
          outcome.result = .error .brokenOff ∧ outcome.tree = tree ∧ outcome.stdout = "" ∧
            outcome.stderr = project.config.2) ∨
        ∃ candidates reports, project.Accounts places ignored candidates reports ∧
          (outcome.result = .ok (Summary.ofReports reports) ∧
              (∃ before, (if options.emit then outcome.stderr else outcome.stdout) =
                before ++ reportText options.format reports) ∨
            ∃ path fault, outcome.result = .error (.failed (.writeFailed path fault))) := by
  intro project places outcome
  have agrees := reorders.agrees proper.distinct
  constructor
  · have places : (options.project here other).kitPaths options =
        (options.project here tree).kitPaths options :=
      congrArg (fun config : Config × String => Command.places options config.1)
        (config_agrees agrees)
    have warning : (options.project here other).config.2 = (options.project here tree).config.2 :=
      congrArg Prod.snd (config_agrees agrees)
    change (run here options tree).Agrees (run here options other)
    rw [run_eq, run_eq, places, warning]
    obtain ⟨stdout, stderr, result, grown⟩ := runAt_reorders proper reorders
      ((options.project here tree).kitPaths options) transforms searches
    exact ⟨stdout, congrArg (_ ++ ·) stderr, result, grown⟩
  · intro ignored read
    obtain ⟨candidates, distinct, complete, found⟩ :=
      @Project.exists_candidates (options.project here tree) proper ignored
    have selected : (options.project here tree).selection options =
        .ok (candidates.map (options.project here tree).pathOf) := by
      unfold Project.selection
      rw [searches, read, ← found]
      rfl
    rcases run_ends transforms selected with ⟨none, ended⟩ | ⟨reports, reported, ended⟩
    · obtain ⟨_, listed, brokenOff⟩ := Project.reports?_eq_none_iff.1 none
      obtain ⟨names, candidate, rfl⟩ := List.mem_map.1 listed
      exact .inl ⟨⟨names, (complete names).1 candidate, brokenOff⟩, ended⟩
    · exact .inr ⟨candidates, reports,
        Project.accounts proper complete distinct reported, ended⟩

/-- A component, a matcher and a declaration file in two orders. -/
theorem run_reorders_shuffled :
    let tree : Tree := ⟨[(["app", "src", "a.svelte"], "<p>hi</p>"),
      (["app", "src", "params", "b.ts"], "export function match(p) \x7b\x7d"),
      (["app", "src", "c.d.ts"], "")], [["app", "static"]]⟩
    let other : Tree := ⟨[(["app", "src", "c.d.ts"], ""),
      (["app", "src", "params", "b.ts"], "export function match(p) \x7b\x7d"),
      (["app", "src", "a.svelte"], "<p>hi</p>")], [["app", "static"]]⟩
    let options : Options := { Options.none with
      workspace := some (.ofText "/app"), outDir := some (.ofText "out") }
    let project := options.project (.ofText "/") tree
    let outcome := run (.ofText "/") options tree
    tree.Proper ∧ tree.Reorders other ∧ options.query? = none ∧ options.files = [] ∧
      outcome.Agrees (run (.ofText "/") options other) ∧
      ∃ ignored candidates reports, readGlobs (options.ignore ++ usualIgnores) = .ok ignored ∧
        project.Accounts (project.kitPaths options) ignored candidates reports ∧
        (outcome.result = .ok (Summary.ofReports reports) ∧
            (∃ before, (if options.emit then outcome.stderr else outcome.stdout) =
              before ++ reportText options.format reports) ∨
          ∃ path fault, outcome.result = .error (.failed (.writeFailed path fault))) := by
  intro tree other options project outcome
  have proper : tree.Proper := ⟨by decide, by decide⟩
  have reorders : tree.Reorders other := ⟨by decide, by decide⟩
  have reads : ((readGlobs (options.ignore ++ usualIgnores)).toOption.any fun _ => true) = true := by
    decide +kernel
  obtain ⟨ignored, read, _⟩ := exists_ok_of_check reads
  obtain ⟨agrees, accounted⟩ := @run_reorders _ _ options (.ofText "/") proper reorders rfl rfl
  let matcher : FilePath := .ofText "/app/src/params/b.ts"
  have selected : project.selection options = .ok [.ofText "/app/src/a.svelte", matcher] := by
    decide +kernel
  have sorted : project.reports? (project.kitPaths options) [.ofText "/app/src/a.svelte", matcher] =
      [.ofText "/app/src/a.svelte", matcher].mapM (project.report? (project.kitPaths options)) :=
    Project.reports?_of_sorted (by decide +kernel)
  have goesOn : outcome.result ≠ .error .brokenOff := by
    change (run _ _ _).result ≠ _
    rw [run_eq, runAt_eq rfl selected]
    unfold transformAll
    rw [sorted]
    decide +kernel
  rcases accounted ignored read with ⟨_, ended, _⟩ | ⟨candidates, reports, accounts, ends⟩
  · exact absurd ended goesOn
  · exact ⟨proper, reorders, rfl, rfl, agrees, ignored, candidates, reports, read, accounts, ends⟩

/-- A script with a byte order mark and a parameter that is not in ASCII breaks a run off: the other
file that could need generated code is not reported on either. -/
theorem run_broken_off :
    let tree : Tree := ⟨[(["app", "src", "routes", "+page.ts"], "\uFEFFexport function load(éé) \x7b\x7d"),
      (["app", "src", "a.svelte"], "<p>hi</p>")], []⟩
    let outcome := run (.ofText "/app") .none tree
    outcome.result = .error .brokenOff ∧ outcome.tree = tree ∧ outcome.stdout = "" := by
  decide +kernel

end TypedSvelte.Command
