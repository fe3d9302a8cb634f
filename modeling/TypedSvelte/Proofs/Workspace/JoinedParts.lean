import TypedSvelte.Proofs.Workspace.Descent

/-!
# The parts of a longer path

A path that is taken from a directory on has the parts of the directory and then its own ones, less
the dot that may begin it (`FilePath.parts_join`), for a dot is a part only where it begins a path
(`FilePath.here_mem_parts`). So it keeps its file name (`FilePath.fileName?_join`), and it ends with
what it ended with before, unless that begins with a dot (`FilePath.suffix_goingOn`).
-/
namespace TypedSvelte.FilePath

def isDotted (path : FilePath) : Bool := path.parts.head? == some .here

def undotted : List Part → List Part
  | .here :: rest => rest
  | parts => parts

private theorem undotted_cases (parts : List Part) :
    undotted parts = parts ∨ parts = .here :: undotted parts := by
  unfold undotted
  split
  · exact .inr rfl
  · exact .inl rfl

private theorem undotted_concat (front : List Part) (name : String) :
    undotted (front ++ [.name name]) = undotted front ++ [.name name] := by
  cases front with
  | nil => rfl
  | cons part rest => cases part <;> rfl

/-- The parts that follow those of a directory. Without any of these they are left as they are. -/
def goingOn (base parts : List Part) : List Part :=
  if base = [] then parts else base ++ undotted parts

section

variable {base path : FilePath}

private theorem isIdle_of_laterPart? {piece : String} (nothing : laterPart? piece = none) :
    isIdle piece = true := by
  rcases piece_cases piece with idle | rfl | isName
  · exact idle
  · cases nothing
  · rw [laterPart?_of_isName isName] at nothing
    cases nothing

private theorem here_not_mem_later (pieces : List String) :
    Part.here ∉ pieces.filterMap laterPart? := by
  intro member
  obtain ⟨piece, _, here⟩ := List.mem_filterMap.1 member
  rcases piece_cases piece with idle | rfl | isName
  · rw [laterPart?_of_isIdle idle] at here
    cases here
  · cases here
  · rw [laterPart?_of_isName isName] at here
    cases here

/-- A dot is a part only where it begins the path. -/
theorem here_mem_parts : .here ∈ path.parts ↔ path.isDotted = true := by
  unfold isDotted
  rw [beq_iff_eq]
  constructor
  · intro member
    unfold parts at member ⊢
    split at member
    · cases member
    · rename_i first later _
      rcases List.mem_append.1 member with begins | follows
      · rw [Option.mem_toList] at begins
        rw [begins]
        rfl
      · exact absurd follows (here_not_mem_later later)
  · exact List.mem_of_head?

/-- The pieces of a relative path stand for its parts behind a directory, but for a dot that begins
it. -/
theorem filterMap_laterPart? (relative : path.isAbsolute = false) :
    path.pieces.filterMap laterPart? = undotted path.parts := by
  obtain ⟨pieces⟩ := path
  unfold parts
  cases pieces with
  | nil => rfl
  | cons first later =>
    dsimp only
    rcases piece_cases first with idle | rfl | isName
    · rw [List.filterMap_cons_none (laterPart?_of_isIdle idle)]
      unfold isIdle at idle
      rw [Bool.or_eq_true, beq_iff_eq, beq_iff_eq] at idle
      rcases idle with rfl | rfl
      · -- An empty piece begins a relative path only if it is all of it.
        cases later with
        | nil => rfl
        | cons piece rest =>
          rw [isAbsolute_cons] at relative
          cases relative
      · rfl
    · rfl
    · rw [List.filterMap_cons_some (laterPart?_of_isName isName), firstPart?_of_isName isName]
      rfl

private theorem parts_join (relative : path.isAbsolute = false) (filled : path.pieces ≠ []) :
    (base.join path).parts = goingOn base.parts path.parts := by
  unfold goingOn
  rw [join_eq relative]
  by_cases within : base.parts = []
  · rw [if_pos within, leadingPieces_of_parts within]
    rfl
  · obtain ⟨first, rest, part, leading, parts, begins⟩ := exists_first_before within (.inl filled)
    rw [if_neg within, leading, parts, ← filterMap_laterPart? relative]
    change (firstPart? first (!(rest ++ path.pieces).isEmpty)).toList ++
      (rest ++ path.pieces).filterMap laterPart? = _
    rw [begins, List.filterMap_append]
    rfl

/-- A path is as dotted as the directory that it is taken from. -/
theorem isDotted_join (relative : path.isAbsolute = false) (filled : path.pieces ≠ [])
    (within : base.parts ≠ []) : (base.join path).isDotted = base.isDotted := by
  unfold isDotted
  rw [parts_join relative filled, goingOn, if_neg within, List.head?_append_of_ne_nil _ within]

theorem fileName?_eq_some_iff {name : String} :
    path.fileName? = some name ↔ ∃ front, path.parts = front ++ [.name name] := by
  unfold fileName?
  constructor
  · intro named
    split at named
    · rename_i text last
      cases named
      exact List.getLast?_eq_some_iff.1 last
    · cases named
  · rintro ⟨front, parts⟩
    rw [parts, List.getLast?_concat]

private theorem goingOn_concat (base front : List Part) (name : String) :
    goingOn base (front ++ [.name name]) = goingOn base front ++ [.name name] := by
  unfold goingOn
  split
  · rfl
  · rw [undotted_concat, List.append_assoc]

/-- What a file name says about the pieces of its path: only idle ones follow it. -/
theorem exists_pieces {name : String} (relative : path.isAbsolute = false)
    (named : path.fileName? = some name) :
    ∃ front idle, path.pieces = front ++ name :: idle ∧ isIdle name = false ∧
      ∀ piece ∈ idle, isIdle piece = true := by
  obtain ⟨before, parts⟩ := fileName?_eq_some_iff.1 named
  have later : path.pieces.filterMap laterPart? = undotted before ++ [.name name] := by
    rw [filterMap_laterPart? relative, parts, undotted_concat]
  obtain ⟨front, back, pieces, _, ends⟩ := List.filterMap_eq_append_iff.1 later
  obtain ⟨skipped, piece, idle, rfl, _, own, nothing⟩ := List.filterMap_eq_cons_iff.1 ends
  refine ⟨front ++ skipped, idle, ?_⟩
  rcases piece_cases piece with isIdle | rfl | isName
  · rw [laterPart?_of_isIdle isIdle] at own
    cases own
  · cases own
  · rw [laterPart?_of_isName isName] at own
    cases own
    refine ⟨by rw [pieces, List.append_assoc], isIdle_of_isName isName, fun piece member => ?_⟩
    exact isIdle_of_laterPart? (List.filterMap_eq_nil_iff.1 nothing piece member)

private theorem trimmedPieces_of_pieces {front idle : List String} {name : String}
    (pieces : path.pieces = front ++ name :: idle) (filled : isIdle name = false)
    (isIdle : ∀ piece ∈ idle, FilePath.isIdle piece = true) :
    path.trimmedPieces = front ++ [name] := by
  have dropped (before : List String) :
      ((before ++ name :: idle).reverse.dropWhile FilePath.isIdle).reverse = before ++ [name] := by
    have stays : ¬ FilePath.isIdle name = true := Bool.eq_false_iff.1 filled
    rw [List.reverse_append, List.reverse_cons, List.append_assoc,
      List.dropWhile_append_of_pos fun piece member => isIdle piece (List.mem_reverse.1 member),
      List.singleton_append, List.dropWhile_cons_of_neg stays, List.reverse_cons,
      List.reverse_reverse]
  unfold trimmedPieces
  rw [pieces]
  cases front with
  | nil =>
    have nothing : idle.reverse.dropWhile FilePath.isIdle = [] :=
      List.dropWhile_eq_nil_iff.2 fun piece member => isIdle piece (List.mem_reverse.1 member)
    dsimp only [List.nil_append]
    rw [nothing]
    rfl
  | cons first rest =>
    dsimp only [List.cons_append]
    rw [dropped]

/-- What is left of a path without its extension. -/
theorem withoutExtension_eq {front idle : List String} {name : String}
    (named : path.fileName? = some name) (pieces : path.pieces = front ++ name :: idle)
    (filled : isIdle name = false) (isIdle : ∀ piece ∈ idle, FilePath.isIdle piece = true) :
    path.withoutExtension = ⟨front ++ [(splitName name).1]⟩ := by
  unfold withoutExtension
  rw [named, trimmedPieces_of_pieces pieces filled isIdle]
  dsimp only
  rw [List.dropLast_concat]

end

section

variable {base path : FilePath} {name : String} (relative : path.isAbsolute = false)
  (named : path.fileName? = some name)

include named in
theorem pieces_ne_nil : path.pieces ≠ [] := by
  intro empty
  obtain ⟨front, parts⟩ := fileName?_eq_some_iff.1 named
  unfold FilePath.parts at parts
  rw [empty] at parts
  exact absurd parts.symm (List.append_ne_nil_of_right_ne_nil front (List.cons_ne_nil _ _))

include relative named

private theorem parts_join_of_fileName? : (base.join path).parts = goingOn base.parts path.parts :=
  parts_join relative (pieces_ne_nil named)

theorem fileName?_join : (base.join path).fileName? = some name := by
  obtain ⟨front, parts⟩ := fileName?_eq_some_iff.1 named
  refine fileName?_eq_some_iff.2 ⟨goingOn base.parts front, ?_⟩
  rw [parts_join_of_fileName? relative named, parts, goingOn_concat]

theorem extension?_join : (base.join path).extension? = path.extension? := by
  unfold extension?
  rw [fileName?_join relative named, named]

private theorem directoryParts_join :
    (base.join path).directoryParts = goingOn base.parts path.directoryParts := by
  obtain ⟨front, parts⟩ := fileName?_eq_some_iff.1 named
  unfold directoryParts
  rw [parts_join_of_fileName? relative named, parts, goingOn_concat, List.dropLast_concat,
    List.dropLast_concat]

theorem isAbsolute_withoutExtension : path.withoutExtension.isAbsolute = false := by
  obtain ⟨front, idle, pieces, filled, isIdle⟩ := exists_pieces relative named
  obtain ⟨all⟩ := path
  rw [withoutExtension_eq named pieces filled isIdle]
  cases front with
  | nil => rw [List.nil_append, isAbsolute_cons, List.isEmpty_nil, Bool.not_true, Bool.and_false]
  | cons first rest =>
    rw [show all = first :: (rest ++ name :: idle) from pieces, isAbsolute_cons] at relative
    rw [List.cons_append, isAbsolute_cons]
    simpa using relative

theorem withoutExtension_join :
    (base.join path).withoutExtension = base.join path.withoutExtension := by
  obtain ⟨front, idle, pieces, filled, isIdle⟩ := exists_pieces relative named
  have longer : (base.join path).pieces = (base.leadingPieces ++ front) ++ name :: idle := by
    rw [join_eq relative, pieces, List.append_assoc]
  rw [join_eq (isAbsolute_withoutExtension relative named),
    withoutExtension_eq (fileName?_join relative named) longer filled isIdle,
    withoutExtension_eq named pieces filled isIdle, List.append_assoc]

omit relative in
theorem withoutExtension_pieces_ne_nil : path.withoutExtension.pieces ≠ [] := by
  unfold withoutExtension
  rw [named]
  exact List.append_ne_nil_of_right_ne_nil _ (List.cons_ne_nil _ _)

private theorem parts_withoutExtension_join :
    (base.join path).withoutExtension.parts = goingOn base.parts path.withoutExtension.parts := by
  rw [withoutExtension_join relative named]
  exact parts_join (isAbsolute_withoutExtension relative named)
    (withoutExtension_pieces_ne_nil named)

end

section

variable {base path place : FilePath}

/-- Parts that follow a directory end with what they ended with before, where that does not begin
with a dot. -/
theorem suffix_goingOn {base parts suffix : List Part} (ends : suffix <:+ parts)
    (spelled : suffix.head? = some .here → base = [] ∨ base = [.here]) :
    suffix <:+ goingOn base parts := by
  unfold goingOn
  split
  · exact ends
  · rename_i within
    rcases undotted_cases parts with same | same
    · rw [same]
      exact ends.trans (List.suffix_append base parts)
    · rw [same] at ends
      rcases List.suffix_cons_iff.1 ends with rfl | later
      · obtain rfl : base = [.here] := (spelled rfl).resolve_left within
        exact List.suffix_rfl
      · exact later.trans (List.suffix_append base _)

private theorem endsWith_iff : path.endsWith place = true ↔ place.parts <:+ path.parts :=
  List.isSuffixOf_iff_suffix

private theorem directoryEndsWith_iff :
    path.directoryEndsWith place = true ↔ place.parts <:+ path.directoryParts :=
  List.isSuffixOf_iff_suffix

/-- Only a dotted path ends with a dotted one. -/
theorem isDotted_of_endsWith (dotted : place.isDotted = true) (ends : path.endsWith place = true) :
    path.isDotted = true :=
  here_mem_parts.1 ((endsWith_iff.1 ends).subset (here_mem_parts.2 dotted))

theorem isDotted_of_directoryEndsWith (dotted : place.isDotted = true)
    (ends : path.directoryEndsWith place = true) : path.isDotted = true :=
  here_mem_parts.1 (List.mem_of_mem_dropLast
    ((directoryEndsWith_iff.1 ends).subset (here_mem_parts.2 dotted)))

variable {name : String} (relative : path.isAbsolute = false) (named : path.fileName? = some name)
  (spelled : place.isDotted = true → base.parts = [] ∨ base.parts = [.here])

include relative named spelled

theorem directoryEndsWith_join (ends : path.directoryEndsWith place = true) :
    (base.join path).directoryEndsWith place = true := by
  rw [directoryEndsWith_iff] at ends ⊢
  rw [directoryParts_join relative named]
  exact suffix_goingOn ends fun here => spelled (beq_iff_eq.2 here)

theorem withoutExtension_endsWith_join (ends : path.withoutExtension.endsWith place = true) :
    (base.join path).withoutExtension.endsWith place = true := by
  rw [endsWith_iff] at ends ⊢
  rw [parts_withoutExtension_join relative named]
  exact suffix_goingOn ends fun here => spelled (beq_iff_eq.2 here)

end

end TypedSvelte.FilePath
