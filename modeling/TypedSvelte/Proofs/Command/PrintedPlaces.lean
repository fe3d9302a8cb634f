import TypedSvelte.Proofs.Command.Runs
import TypedSvelte.Proofs.Transform.Offsets

/-!
# Places that are printed

A query prints two places and a report on a file that is refused prints one. All of them are places
of the text that they are printed for (`Place.Real`), so no place is made up for an offset past the
end, and a place of a special file is found again from its code (`printed_places_real`).
-/
namespace TypedSvelte.Command

open Kit

variable {project : Project} {places : KitPaths} {query : PositionQuery} {source : String}
  {file : Transformed}

/-- The text reaches as far as the place, and line and column, counted from one, are those that the
text has there. -/
structure Place.Real (text : String) (place : Place) : Prop where
  inside : place.offset ≤ text.utf8ByteSize
  located : ∃ position, (LineIndex.ofText text).position? place.offset = some position ∧
    place.line = position.line + 1 ∧ place.column = position.column + 1

private theorem Place.real_ofOffset {text : String} {offset : Nat} (inside : offset ≤ text.utf8ByteSize) :
    (Place.ofOffset text offset).Real text := by
  have known : ∃ position, (LineIndex.ofText text).position? offset = some position := by
    exact ⟨_, if_neg (Nat.not_lt.2 inside)⟩
  obtain ⟨position, found⟩ := known
  refine ⟨inside, position, found, ?_, ?_⟩
  · rw [Place.ofOffset, found]
    rfl
  · rw [Place.ofOffset, found]
    rfl

/-- What a query sees of its file: the text, and what becomes of it. -/
structure Project.Sees (project : Project) (places : KitPaths) (query : PositionQuery)
    (source : String) (file : Transformed) : Prop where
  read : project.tree.read (project.root.join query.file) = .ok source
  made : transformFile (project.relative (project.root.join query.file)) source places =
    .ok (some file)

def Direction.asked (source : String) (file : Transformed) : Direction → String
  | .toGenerated => source
  | .toOriginal => file.code

def Direction.answered (source : String) (file : Transformed) : Direction → String
  | .toGenerated => file.code
  | .toOriginal => source

/-- The offset that an offset is mapped to, and whether that is only an anchor for it. -/
def Direction.mapped (file : Transformed) (offset : Nat) : Direction → Option Nat × Bool
  | .toGenerated => (file.toGenerated? offset, false)
  | .toOriginal => (some (file.toOriginal offset).offset, (file.toOriginal offset).synthetic)

/-- A query of a file that is transformed is answered for every offset up to the end of the text. -/
theorem correspondence_of_sees (sees : project.Sees places query source file)
    (direction : Direction) :
    correspondence project places direction query =
      if (direction.asked source file).utf8ByteSize < query.offset then
        .error (.failed (.offsetOutOfRange query.file query.offset))
      else .ok ⟨query.file, .ofOffset (direction.asked source file) query.offset,
        (direction.mapped file query.offset).1.map (.ofOffset (direction.answered source file)),
        (direction.mapped file query.offset).2⟩ := by
  unfold correspondence
  simp only [sees.read, sees.made, pure_bind]
  cases direction with
  | toGenerated =>
    change (if source.utf8ByteSize < query.offset then _ else _) =
      if source.utf8ByteSize < query.offset then _ else _
    split <;> rfl
  | toOriginal =>
    change (if file.code.utf8ByteSize < query.offset then _ else _) =
      if file.code.utf8ByteSize < query.offset then _ else _
    split <;> rfl

/-- Only queries of files that are transformed are answered. -/
theorem exists_sees {direction : Direction} {answer : Correspondence}
    (answered : correspondence project places direction query = .ok answer) :
    ∃ source file, project.Sees places query source file := by
  unfold correspondence at answered
  dsimp only at answered
  split at answered
  · rename_i source read
    rw [pure_bind] at answered
    split at answered
    · rename_i file made
      exact ⟨source, file, read, made⟩
    all_goals cases answered
  · cases answered

private theorem mapped_le (sees : project.Sees places query source file) {direction : Direction}
    (inside : query.offset ≤ (direction.asked source file).utf8ByteSize) :
    ∀ offset ∈ (direction.mapped file query.offset).1,
      offset ≤ (direction.answered source file).utf8ByteSize := by
  cases direction with
  | toGenerated => exact fun offset found => generated_le sees.made inside found
  | toOriginal =>
    rintro offset ⟨⟩
    exact original_le sees.made inside

/-- A report on a file that is refused points at the place of the error. -/
theorem exists_of_refused {path : FilePath} {error : TransformError} {place? : Option Place}
    (failed : project.outcome? places path = some (.failed (.refused error place?))) :
    ∃ source, project.tree.read path = .ok source ∧
      transformFile (project.relative path) source places = .error (.refused error) ∧
      place? = error.offset?.map (.ofOffset source) := by
  unfold Project.outcome? at failed
  split at failed
  · cases failed
  · rename_i source read
    split at failed <;> cases failed
    exact ⟨source, read, by assumption, rfl⟩

/-- Every place that is printed is a real one. The answer to a query tells where the query is in the
text that it asks about, and where that is in the other text. The report on a file that is refused
tells where the error is, if that is known. A special file is wholly part of its code: an offset
that is mapped there and back is the same, and stands for itself. -/
theorem printed_places_real (project : Project) (places : KitPaths) :
    (∀ direction query answer, correspondence project places direction query = .ok answer →
      ∃ source file, project.Sees places query source file ∧
        answer.source.offset = query.offset ∧
        answer.source.Real (direction.asked source file) ∧
        ∀ target ∈ answer.target, target.Real (direction.answered source file)) ∧
    (∀ paths reports, project.reports? places paths = some reports → ∀ report ∈ reports,
      ∀ error place?, report.outcome = .failed (.refused error place?) →
        ∃ path ∈ paths, ∃ source, report.path = project.relative path ∧
          project.tree.read path = .ok source ∧
          transformFile report.path source places = .error (.refused error) ∧
          place?.map (·.offset) = error.offset? ∧ ∀ place ∈ place?, place.Real source) ∧
    ∀ query source special, project.Sees places query source (.special special) →
      query.offset ≤ source.utf8ByteSize →
        ∃ target, correspondence project places .toGenerated query =
            .ok ⟨query.file, .ofOffset source query.offset, some target, false⟩ ∧
          correspondence project places .toOriginal ⟨query.file, target.offset⟩ =
            .ok ⟨query.file, target, some (.ofOffset source query.offset), false⟩ := by
  refine ⟨?_, ?_, ?_⟩
  · intro direction query answer answered
    obtain ⟨source, file, sees⟩ := exists_sees answered
    rw [correspondence_of_sees sees] at answered
    split at answered
    · cases answered
    · rename_i inside
      cases answered
      have inside := Nat.not_lt.1 inside
      refine ⟨source, file, sees, rfl, Place.real_ofOffset inside, fun target isTarget => ?_⟩
      obtain ⟨offset, found, rfl⟩ := Option.map_eq_some_iff.1 isTarget
      exact Place.real_ofOffset (mapped_le sees inside offset found)
  · intro paths reports reported report member error place? failed
    obtain ⟨path, listed, told⟩ := (Project.mem_reports? reported).1 member
    obtain ⟨seen, outcome⟩ := Project.report?_eq_some.1 told
    rw [failed] at outcome
    obtain ⟨source, read, refused, rfl⟩ := exists_of_refused outcome
    refine ⟨path, listed, source, seen, read, seen ▸ refused, ?_, fun place isPlace => ?_⟩
    · cases error.offset? <;> rfl
    · obtain ⟨offset, told, rfl⟩ := Option.map_eq_some_iff.1 isPlace
      exact Place.real_ofOffset (transformFile_fails _ source places _ refused error rfl offset told)
  · intro query source special sees inside
    obtain ⟨out, made, same⟩ :=
      (transformFile_cases sees.made).resolve_left (by rintro ⟨_, _, ⟨⟩⟩)
    cases same
    let generated := special.ledger.toGenerated query.offset
    have back : special.ledger.toOriginal generated = .exactly query.offset :=
      original_of_generated made query.offset
    have known : generated ≤ special.text.utf8ByteSize := generated_le sees.made inside rfl
    have again : project.Sees places ⟨query.file, generated⟩ source (.special special) :=
      ⟨sees.read, sees.made⟩
    refine ⟨.ofOffset special.text generated, ?_, ?_⟩
    · exact (correspondence_of_sees sees .toGenerated).trans (if_neg (Nat.not_lt.2 inside))
    · refine (correspondence_of_sees again .toOriginal).trans
        ((if_neg (Nat.not_lt.2 known)).trans ?_)
      simp only [Direction.mapped, Transformed.toOriginal, back]
      rfl

/-- The end of the parameter of a matcher, and a script whose second line cannot be read. -/
theorem printed_places_real_matcher :
    let matcher := "export function match(é) \x7b\x7d"
    let broken := "<script>\nlet é = \x7b;\n</script>"
    let project : Project := ⟨⟨[(["app", "src", "params", "word.ts"], matcher),
      (["app", "Broken.svelte"], broken)], []⟩, .ofText "/app"⟩
    let query : PositionQuery := ⟨.ofText "src/params/word.ts", 24⟩
    query.offset ≤ matcher.utf8ByteSize ∧
      (∃ special, project.Sees .standard query matcher (.special special) ∧
        ∃ target, correspondence project .standard .toGenerated query =
            .ok ⟨query.file, .ofOffset matcher 24, some target, false⟩ ∧
          target.Real special.text ∧
          correspondence project .standard .toOriginal ⟨query.file, target.offset⟩ =
            .ok ⟨query.file, target, some (.ofOffset matcher 24), false⟩) ∧
      ∃ reports, project.reports? .standard [.ofText "/app/Broken.svelte"] = some reports ∧
        ∃ report ∈ reports, ∃ error place,
          report.outcome = .failed (.refused error (some place)) ∧ place.line = 2 ∧
            place.Real broken := by
  intro matcher broken project query
  obtain ⟨answers, reports, mapped⟩ := printed_places_real project .standard
  have inside : query.offset ≤ matcher.utf8ByteSize := by decide +kernel
  refine ⟨inside, ?_, ?_⟩
  · have typed : (transformFile (project.relative (project.root.join query.file)) matcher
        .standard).toOption.any (fun file? => file?.any (·.label != "component")) = true := by
      decide +kernel
    obtain ⟨file?, made, isSpecial⟩ := exists_ok_of_check typed
    rcases file? with _ | component | special
    · cases isSpecial
    · have other : (Transformed.component component).label = "component" := rfl
      simp only [Option.any_some, other, bne_self_eq_false, Bool.false_eq_true] at isSpecial
    · have sees : project.Sees .standard query matcher (.special special) :=
        ⟨by decide +kernel, made⟩
      obtain ⟨target, there, back⟩ := mapped query matcher special sees inside
      obtain ⟨_, _, again, _, _, real⟩ := answers _ _ _ there
      cases again.read.symm.trans sees.read
      cases again.made.symm.trans sees.made
      exact ⟨special, sees, target, there, real target rfl, back⟩
  · let path := FilePath.ofText "/app/Broken.svelte"
    have read : project.tree.read path = .ok broken := by decide +kernel
    have refused : transformFile (project.relative path) broken .standard =
        .error (.refused (.script 19)) := eq_error_of_check (by decide +kernel)
    let place : Place := .ofOffset broken 19
    let report : FileReport :=
      ⟨project.relative path, .failed (.refused (.script 19) (some place))⟩
    have told : project.report? .standard path = some report := by
      simp only [Project.report?, Project.outcome?, read, refused]
      rfl
    have reported : project.reports? .standard [path] = some [report] := by
      have each : [path].mapM (project.report? .standard) = some [report] :=
        Project.mapM_report?_eq_some.2 (congrArg (· :: []) told)
      rw [Project.reports?_of_sorted (List.pairwise_singleton _ _), each]
    have listed : report ∈ [report] := List.mem_cons_self
    obtain ⟨_, inList, source, _, again, _, _, real⟩ :=
      reports [path] [report] reported report listed _ _ rfl
    cases List.mem_singleton.1 inList
    cases again.symm.trans read
    exact ⟨[report], reported, report, listed, .script 19, place, rfl, by decide +kernel,
      real place rfl⟩

end TypedSvelte.Command
