import TypedSvelte.Kit.Augment
import TypedSvelte.Proofs.Outcome
import TypedSvelte.Proofs.Workspace.JoinedParts

/-!
# Which files are special

A special file is typed as what its path says it is (`kind_of_augment`). The name that the code of a
component gets is that of no route module, unless an at sign hides the rest of it
(`mem_of_ofFileName?`).

The kinds of special files are tried in an order, and the first one that a path fits counts
(`FileKind.fits_of_classify?`, `FileKind.exists_classify?`). What fits a kind by a short path also
fits it by a longer one (`FileKind.Fits.join`), so a longer path can only lead to a kind that is
tried earlier (`classify?_join`). Places that begin with a dot are different: paths are compared part
by part, and a dot is a part only where it begins a path (`FileKind.Fits.isDotted`).
-/
namespace TypedSvelte.Kit

open FilePath

section

variable {path : FilePath} {places : KitPaths}

theorem kind_of_augment {source : String} {out : Augmented}
    (made : augment path source places = .ok (some out)) :
    classify? path places = some out.kind := by
  unfold augment at made
  split at made
  · cases made
  · rename_i kind classified
    dsimp only at made
    split at made
    · cases made
    · obtain ⟨exports, _, made⟩ := exists_of_bind_ok made
      obtain ⟨ledger, _, made⟩ := exists_of_bind_ok made
      split at made
      · cases made
      · split at made
        · cases made
          exact classified
        · cases made

/-- A special file has a name, and this is what makes it a route module. -/
theorem exists_fileName {kind : FileKind} (classified : classify? path places = some kind) :
    ∃ name, path.fileName? = some name ∧
      ∀ route, kind = .route route → RouteKind.ofFileName? name = some route := by
  unfold classify? at classified
  obtain ⟨name, named, classified⟩ := Option.bind_eq_some_iff.1 classified
  refine ⟨name, named, ?_⟩
  rintro route rfl
  split at classified
  · cases classified
  · split at classified
    · rename_i found
      cases classified
      exact found
    · repeat' split at classified
      all_goals cases classified

private theorem routeName_extended {name : String} (unmarked : '@' ∉ name.toList) :
    routeName (name ++ ".ts") = name := by
  have chars : (name ++ ".ts").toList = name.toList ++ ['.', 't', 's'] := String.toList_append
  unfold routeName
  dsimp only
  rw [chars, if_neg (by simp [unmarked]), if_pos (by simp), List.reverse_append]
  change String.ofList (name.toList.reverse).reverse = name
  rw [List.reverse_reverse, String.ofList_toList]

/-- The longer name of a component is that of a route module only if there is an at sign in it. -/
theorem mem_of_ofFileName? {name : String} {kind : RouteKind}
    (component : (splitName name).2 = some "svelte")
    (found : RouteKind.ofFileName? (name ++ ".ts") = some kind) : '@' ∈ name.toList := by
  refine Decidable.byContradiction fun unmarked => ?_
  have base := List.find?_some found
  rw [routeName_extended unmarked] at base
  rw [← eq_of_beq base] at component
  cases kind <;> revert component <;> decide

end

/-- The place where files of the kind are kept. Routes can be anywhere. -/
def FileKind.place? (places : KitPaths) : FileKind → Option FilePath
  | .route _ => none
  | .serverHooks => some places.serverHooks
  | .clientHooks => some places.clientHooks
  | .params => some places.params

/-- When the kind is tried. All routes are tried at once. -/
def FileKind.rank : FileKind → Nat
  | .route _ => 0
  | .serverHooks => 1
  | .clientHooks => 2
  | .params => 3

/-- The path is that of a script. No other file is special. -/
def IsScript (path : FilePath) : Prop := path.extension? = some "ts" ∨ path.extension? = some "js"

/-- The path fits the kind, whatever other kinds it fits. -/
def FileKind.Fits (path : FilePath) (places : KitPaths) : FileKind → Prop
  | .route kind => path.fileName?.bind RouteKind.ofFileName? = some kind
  | .serverHooks => isHooksFile path places.serverHooks = true
  | .clientHooks => isHooksFile path places.clientHooks = true
  | .params => isParamsFile path places.params = true

section

variable {path : FilePath} {places : KitPaths} {kind : FileKind}

theorem IsScript.exists_fileName (script : IsScript path) : ∃ name, path.fileName? = some name := by
  have named (extension : String) (found : path.extension? = some extension) :
      ∃ name, path.fileName? = some name := by
    obtain ⟨name, named, _⟩ := Option.bind_eq_some_iff.1 found
    exact ⟨name, named⟩
  exact script.elim (named "ts") (named "js")

theorem classify?_of_isScript (script : IsScript path) :
    classify? path places =
      ((path.fileName?.bind RouteKind.ofFileName?).map FileKind.route).or
        (if isHooksFile path places.serverHooks then some .serverHooks
        else if isHooksFile path places.clientHooks then some .clientHooks
        else if isParamsFile path places.params then some .params
        else none) := by
  obtain ⟨name, named⟩ := script.exists_fileName
  have skipped : (path.extension? != some "ts" && path.extension? != some "js") = false := by
    rcases script with ts | js
    · rw [ts]
      rfl
    · rw [js]
      rfl
  unfold classify?
  rw [named, skipped, Option.bind_eq_bind, Option.bind_some, Option.bind_some]
  cases RouteKind.ofFileName? name <;> rfl

private theorem isScript_of_classify? (classified : classify? path places = some kind) : IsScript path := by
  unfold classify? at classified
  obtain ⟨name, _, classified⟩ := Option.bind_eq_some_iff.1 classified
  split at classified
  · cases classified
  · rename_i kept
    by_contra other
    obtain ⟨ts, js⟩ := not_or.1 other
    exact kept (by simp [ts, js])

private theorem FileKind.fits_of_classify? (classified : classify? path places = some kind) :
    kind.Fits path places := by
  rw [classify?_of_isScript (isScript_of_classify? classified)] at classified
  rcases Option.or_eq_some_iff.1 classified with route | ⟨_, later⟩
  · obtain ⟨route, found, rfl⟩ := Option.map_eq_some_iff.1 route
    exact found
  · split at later
    · cases later
      assumption
    · split at later
      · cases later
        assumption
      · split at later
        · cases later
          assumption
        · cases later

/-- A script that fits a kind is special, and of a kind that is tried no later. -/
theorem FileKind.exists_classify? (script : IsScript path) (fits : kind.Fits path places) :
    ∃ first, classify? path places = some first ∧ first.rank ≤ kind.rank := by
  rw [classify?_of_isScript script]
  cases found : path.fileName?.bind RouteKind.ofFileName? with
  | some route => exact ⟨.route route, rfl, Nat.zero_le _⟩
  | none =>
    rw [Option.map_none, Option.none_or]
    cases kind with
    | route route => exact absurd (found.symm.trans fits) nofun
    | serverHooks => exact ⟨.serverHooks, if_pos fits, le_rfl⟩
    | clientHooks =>
      by_cases server : isHooksFile path places.serverHooks = true
      · exact ⟨.serverHooks, if_pos server, by decide⟩
      · rw [if_neg server]
        exact ⟨.clientHooks, if_pos fits, le_rfl⟩
    | params =>
      by_cases server : isHooksFile path places.serverHooks = true
      · exact ⟨.serverHooks, if_pos server, by decide⟩
      · rw [if_neg server]
        by_cases client : isHooksFile path places.clientHooks = true
        · exact ⟨.clientHooks, if_pos client, by decide⟩
        · rw [if_neg client]
          exact ⟨.params, if_pos fits, le_rfl⟩

/-- No kind is tried before the routes. -/
theorem FileKind.classify?_route {route : RouteKind} (script : IsScript path)
    (fits : (FileKind.route route).Fits path places) :
    classify? path places = some (.route route) := by
  rw [classify?_of_isScript script, show path.fileName?.bind RouteKind.ofFileName? = _ from fits]
  rfl

end

private theorem isHooksFile_iff {path place : FilePath} :
    isHooksFile path place = true ↔
      (path.fileName? = some "index.ts" ∨ path.fileName? = some "index.js") ∧
          path.directoryEndsWith place = true ∨
        path.withoutExtension.endsWith place = true := by
  unfold isHooksFile
  cases path.fileName? <;> simp

private theorem isParamsFile_iff {path place : FilePath} :
    isParamsFile path place = true ↔
      path.directoryEndsWith place = true ∧
        ∃ name, path.fileName? = some name ∧ findText? ".test".toList name.toList = none ∧
          findText? ".spec".toList name.toList = none := by
  unfold isParamsFile
  cases path.fileName? <;> simp [and_assoc]

section

variable {base path : FilePath} {places : KitPaths} {kind : FileKind} {name : String}
  (relative : path.isAbsolute = false) (named : path.fileName? = some name)

include relative named

private theorem isHooksFile_join {place : FilePath}
    (spelled : place.isDotted = true → base.parts = [] ∨ base.parts = [.here])
    (fits : isHooksFile path place = true) : isHooksFile (base.join path) place = true := by
  rw [isHooksFile_iff] at fits ⊢
  rcases fits with ⟨index, ends⟩ | ends
  · rw [named] at index
    rw [fileName?_join relative named]
    exact .inl ⟨index, directoryEndsWith_join relative named spelled ends⟩
  · exact .inr (withoutExtension_endsWith_join relative named spelled ends)

private theorem isParamsFile_join {place : FilePath}
    (spelled : place.isDotted = true → base.parts = [] ∨ base.parts = [.here])
    (fits : isParamsFile path place = true) : isParamsFile (base.join path) place = true := by
  rw [isParamsFile_iff] at fits ⊢
  obtain ⟨ends, noTest⟩ := fits
  rw [named] at noTest
  rw [fileName?_join relative named]
  exact ⟨directoryEndsWith_join relative named spelled ends, noTest⟩

/-- A path fits a kind from a directory on, unless its place begins with a dot. -/
theorem FileKind.Fits.join
    (spelled : ∀ place, kind.place? places = some place → place.isDotted = true →
      base.parts = [] ∨ base.parts = [.here])
    (fits : kind.Fits path places) : kind.Fits (base.join path) places := by
  cases kind with
  | route route =>
    unfold Fits at fits ⊢
    rwa [fileName?_join relative named, ← named]
  | serverHooks => exact isHooksFile_join relative named (spelled _ rfl) fits
  | clientHooks => exact isHooksFile_join relative named (spelled _ rfl) fits
  | params => exact isParamsFile_join relative named (spelled _ rfl) fits

end

/-- Files that are kept in a place that begins with a dot are named with the dot. -/
theorem FileKind.Fits.isDotted {path place : FilePath} {places : KitPaths} {kind : FileKind}
    (found : kind.place? places = some place) (dotted : place.isDotted = true)
    (fits : kind.Fits path places) :
    path.isDotted = true ∨ path.withoutExtension.isDotted = true := by
  have hooks (fits : isHooksFile path place = true) :
      path.isDotted = true ∨ path.withoutExtension.isDotted = true := by
    rcases isHooksFile_iff.1 fits with ⟨_, ends⟩ | ends
    · exact .inl (isDotted_of_directoryEndsWith dotted ends)
    · exact .inr (isDotted_of_endsWith dotted ends)
  cases kind with
  | route route => cases found
  | serverHooks =>
    cases found
    exact hooks fits
  | clientHooks =>
    cases found
    exact hooks fits
  | params =>
    cases found
    exact .inl (isDotted_of_directoryEndsWith dotted (isParamsFile_iff.1 fits).1)

/-- A special file is special by every longer path, of a kind that is tried no later, and a route
keeps its kind. The exception is a file whose place begins with a dot: it is special from the
directory that the dot stands for, and not of its kind by a path that begins with something else. -/
theorem classify?_join {base path : FilePath} {places : KitPaths} {kind : FileKind}
    (relative : path.isAbsolute = false) (classified : classify? path places = some kind) :
    ((∀ place, kind.place? places = some place → place.isDotted = true →
        base.parts = [] ∨ base.parts = [.here]) →
      ∃ longer, classify? (base.join path) places = some longer ∧ longer.rank ≤ kind.rank ∧
        ∀ route, kind = .route route → longer = kind) ∧
    ((∃ place, kind.place? places = some place ∧ place.isDotted = true) →
      base.parts ≠ [] → base.isDotted = false →
      classify? (base.join path) places ≠ some kind) := by
  obtain ⟨name, named, _⟩ := exists_fileName classified
  constructor
  · intro spelled
    have script : IsScript (base.join path) := by
      unfold IsScript
      rw [extension?_join relative named]
      exact isScript_of_classify? classified
    have fits := (FileKind.fits_of_classify? classified).join relative named spelled
    obtain ⟨longer, found, earlier⟩ := FileKind.exists_classify? script fits
    refine ⟨longer, found, earlier, ?_⟩
    rintro route rfl
    rw [FileKind.classify?_route script fits] at found
    exact (Option.some.inj found).symm
  · rintro ⟨place, kept, dotted⟩ within plain same
    have begins : base.isDotted = true := by
      rcases (FileKind.fits_of_classify? same).isDotted kept dotted with here | here
      · rwa [isDotted_join relative (pieces_ne_nil named) within] at here
      · rwa [withoutExtension_join relative named,
          isDotted_join (isAbsolute_withoutExtension relative named)
            (withoutExtension_pieces_ne_nil named) within] at here
    rw [plain] at begins
    cases begins

/-- In a project that keeps its server hooks in an application of its own, the hooks of a client are
those of the server when they are seen from outside. Where the matchers are kept in a place that
begins with a dot, they are none when they are seen from outside. -/
theorem classify?_join_app :
    let hooks : KitPaths := ⟨.ofText "app/src/hooks", .ofText "src/hooks", .ofText "./src/params"⟩
    (∃ longer, classify? ((ofText "app").join (ofText "src/hooks.ts")) hooks = some longer ∧
      longer.rank ≤ FileKind.clientHooks.rank ∧
      ∀ route, FileKind.clientHooks = .route route → longer = .clientHooks) ∧
    classify? ((ofText "app").join (ofText "./src/params/a.ts")) hooks ≠ some .params := by
  intro hooks
  constructor
  · refine (@classify?_join (ofText "app") (ofText "src/hooks.ts") hooks .clientHooks
      (by decide) (by decide)).1 ?_
    intro place kept dotted
    cases kept
    revert dotted
    decide
  · exact (@classify?_join (ofText "app") (ofText "./src/params/a.ts") hooks .params
      (by decide) (by decide)).2 ⟨_, rfl, by decide⟩ (by decide) (by decide)

/-- A dot that begins a place begins no longer path. -/
theorem classify?_join_dotted :
    let places : KitPaths := { KitPaths.standard with params := .ofText "./src/params" }
    (ofText "./src/params/a.ts").isAbsolute = false ∧
      classify? (ofText "./src/params/a.ts") places = some .params ∧
      classify? ((ofText "/ws").join (ofText "./src/params/a.ts")) places = none := by
  decide

end TypedSvelte.Kit
