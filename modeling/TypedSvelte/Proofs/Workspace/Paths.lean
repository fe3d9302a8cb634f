import Mathlib.Data.List.Infix
import TypedSvelte.Workspace.Tree

/-!
# Paths and places

A path leads from place to place, piece by piece (`Location.ofPath_eq`), and a path that is taken
from another one on goes on from its place (`Location.ofPath_join`). The names that lead from a
directory to a file are what is left of the path of the file when it is seen from there
(`FilePath.relativeTo?_join_names`). The order of paths is linear in their parts.
-/
namespace TypedSvelte

namespace FilePath

/-- The piece is the name of a file or a directory. -/
def IsName (piece : String) : Prop := piece ≠ "" ∧ piece ≠ "." ∧ piece ≠ ".."

instance (piece : String) : Decidable (IsName piece) := inferInstanceAs (Decidable (_ ∧ _))

theorem laterPart?_of_isName {piece : String} (isName : IsName piece) :
    laterPart? piece = some (.name piece) := by
  obtain ⟨filled, notHere, notUp⟩ := isName
  simp [laterPart?, isIdle, filled, notHere, notUp]

theorem firstPart?_of_isName {piece : String} (isName : IsName piece) (more : Bool) :
    firstPart? piece more = some (.name piece) := by
  have later := laterPart?_of_isName isName
  obtain ⟨filled, notHere, _⟩ := isName
  simp [firstPart?, filled, notHere, later]

theorem laterPart?_of_isIdle {piece : String} (idle : isIdle piece = true) :
    laterPart? piece = none := if_pos idle

private theorem filterMap_names {names : List String} (isName : ∀ name ∈ names, IsName name) :
    names.filterMap laterPart? = names.map Part.name :=
  (List.filterMap_congr fun name member => laterPart?_of_isName (isName name member)).trans
    (congrFun List.filterMap_eq_map names)

private theorem parts_names {names : List String} (isName : ∀ name ∈ names, IsName name) :
    (FilePath.mk names).parts = names.map Part.name := by
  cases names with
  | nil => rfl
  | cons name rest =>
    obtain ⟨first, later⟩ := List.forall_mem_cons.1 isName
    unfold parts
    dsimp only
    rw [firstPart?_of_isName first, filterMap_names later]
    rfl

theorem names_of_parts {names other : List String} (isName : ∀ name ∈ names, IsName name)
    (otherIsName : ∀ name ∈ other, IsName name)
    (same : (FilePath.mk names).parts = (FilePath.mk other).parts) : names = other := by
  rw [parts_names isName, parts_names otherIsName] at same
  have injective : Function.Injective Part.name := fun _ _ => Part.name.inj
  exact List.map_injective_iff.2 injective same

theorem isAbsolute_names {names : List String} (isName : ∀ name ∈ names, IsName name) :
    (FilePath.mk names).isAbsolute = false := by
  unfold isAbsolute
  rw [parts_names isName]
  cases names <;> rfl

def trimmed (path : FilePath) : FilePath :=
  ⟨((path.pieces.dropWhile isIdle).reverse.dropWhile isIdle).reverse⟩

theorem isIdle_of_isName {piece : String} (isName : IsName piece) : isIdle piece = false := by
  obtain ⟨filled, notHere, _⟩ := isName
  simp [isIdle, filled, notHere]

private theorem dropWhile_isIdle_names {names : List String} (isName : ∀ name ∈ names, IsName name) :
    names.dropWhile isIdle = names := by
  cases names with
  | nil => rfl
  | cons name rest =>
    apply List.dropWhile_cons_of_neg
    rw [isIdle_of_isName (isName name List.mem_cons_self)]
    exact Bool.false_ne_true

private theorem trimmed_names {names : List String} (isName : ∀ name ∈ names, IsName name) :
    (FilePath.mk names).trimmed = ⟨names⟩ := by
  unfold trimmed
  rw [dropWhile_isIdle_names isName, dropWhile_isIdle_names, List.reverse_reverse]
  exact fun name member => isName name (List.mem_reverse.1 member)

/-- Pieces are passed by their own parts. Idle ones behind them may be left. -/
theorem dropParts_own (pieces tail : List String) :
    (dropParts false (pieces ++ tail) (pieces.filterMap laterPart?)).map (List.dropWhile isIdle) =
      some (tail.dropWhile isIdle) := by
  induction pieces with
  | nil => cases tail <;> rfl
  | cons piece rest ih =>
    cases later : laterPart? piece with
    | some part =>
      rw [List.filterMap_cons_some later, List.cons_append, dropParts]
      simpa [later] using ih
    | none =>
      rw [List.filterMap_cons_none later]
      cases parts : rest.filterMap laterPart? with
      | nil =>
        have idle : isIdle piece = true := by
          unfold laterPart? at later
          split at later
          · assumption
          · split at later <;> cases later
        rw [parts, dropParts] at ih
        simpa [dropParts, idle] using ih
      | cons part parts' =>
        rw [parts] at ih
        rw [List.cons_append, dropParts]
        simpa [later] using ih

/-- The pieces that a path begins with if it is taken from this one on. -/
def leadingPieces (base : FilePath) : List String :=
  if base.pieces.getLast? == some "" then base.pieces.dropLast else base.pieces

theorem join_eq {base path : FilePath} (relative : path.isAbsolute = false) :
    base.join path = ⟨base.leadingPieces ++ path.pieces⟩ := by
  unfold join leadingPieces
  rw [if_neg (Bool.eq_false_iff.1 relative)]
  split <;> rfl

/-- What the leading pieces leave out is idle. -/
theorem pieces_cases (base : FilePath) :
    base.pieces = base.leadingPieces ∨ base.pieces = base.leadingPieces ++ [""] := by
  unfold leadingPieces
  split
  · rename_i last
    obtain ⟨front, same⟩ := List.getLast?_eq_some_iff.1 (eq_of_beq last)
    rw [same, List.dropLast_concat]
    exact .inr rfl
  · exact .inl rfl

theorem firstPart?_eq_none {piece : String} {more : Bool} (nothing : firstPart? piece more = none) :
    piece = "" ∧ more = false := by
  unfold firstPart? laterPart? isIdle at nothing
  by_cases filled : piece = ""
  · cases more <;> simp_all
  · by_cases here : piece = "."
    · simp_all
    · by_cases up : piece = ".." <;> simp_all

/-- Only for the empty piece does it matter whether a slash follows. -/
theorem firstPart?_more {piece : String} {more other : Bool} {part : FilePath.Part}
    (found : firstPart? piece more = some part) (same : piece = "" → other = true) :
    firstPart? piece other = some part := by
  unfold firstPart? at found ⊢
  by_cases empty : piece = ""
  · cases more <;> simp_all
  · rwa [if_neg (mt eq_of_beq empty)] at found ⊢

theorem leadingPieces_of_parts {base : FilePath} (empty : base.parts = []) :
    base.leadingPieces = [] := by
  obtain ⟨pieces⟩ := base
  cases pieces with
  | nil => rfl
  | cons first later =>
    unfold parts at empty
    dsimp only at empty
    cases own : firstPart? first (!later.isEmpty) with
    | none =>
      obtain ⟨rfl, none⟩ := firstPart?_eq_none own
      rw [Bool.not_eq_false', List.isEmpty_iff] at none
      rw [none]
      rfl
    | some part =>
      rw [own] at empty
      cases empty

/-- The parts of a path begin with that of its first leading piece. -/
theorem exists_first {base : FilePath} (within : base.parts ≠ []) :
    ∃ first rest part, base.leadingPieces = first :: rest ∧
      base.parts = part :: rest.filterMap laterPart? ∧
      ∀ more, (first = "" → more = true) → firstPart? first more = some part := by
  have parts (pieces : List String) (same : base.pieces = pieces) :
      base.parts = (FilePath.mk pieces).parts := congrArg _ (congrArg FilePath.mk same)
  cases leading : base.leadingPieces with
  | nil =>
    rcases pieces_cases base with same | same
    · rw [leading] at same
      exact absurd (parts _ same) within
    · rw [leading] at same
      exact absurd (parts _ same) within
  | cons first rest =>
    have later : ∃ later, base.pieces = first :: later ∧
        later.filterMap laterPart? = rest.filterMap laterPart? := by
      rcases pieces_cases base with same | same
      · exact ⟨rest, same.trans leading, rfl⟩
      · refine ⟨rest ++ [""], by rw [same, leading]; rfl, ?_⟩
        rw [List.filterMap_append]
        exact List.append_nil _
    obtain ⟨later, same, skipped⟩ := later
    have own : base.parts = (firstPart? first (!later.isEmpty)).toList ++ rest.filterMap laterPart? := by
      rw [parts _ same, ← skipped]
      rfl
    cases found : firstPart? first (!later.isEmpty) with
    | none =>
      obtain ⟨rfl, none⟩ := firstPart?_eq_none found
      rw [Bool.not_eq_false', List.isEmpty_iff] at none
      rw [none] at same
      exact absurd (parts _ same) within
    | some part =>
      rw [found] at own
      exact ⟨first, rest, part, rfl, own, fun more slash => firstPart?_more found slash⟩

/-- It is still the first part when more pieces follow. -/
theorem exists_first_before {base : FilePath} {pieces : List String} (within : base.parts ≠ [])
    (spelled : pieces ≠ [] ∨ base.parts ≠ [.root]) :
    ∃ first rest part, base.leadingPieces = first :: rest ∧
      base.parts = part :: rest.filterMap laterPart? ∧
      firstPart? first (!(rest ++ pieces).isEmpty) = some part := by
  obtain ⟨first, rest, part, leading, parts, begins⟩ := exists_first within
  refine ⟨first, rest, part, leading, parts, begins _ ?_⟩
  rintro rfl
  have root : part = .root := Option.some_inj.1 (begins true fun _ => rfl).symm
  rcases spelled with filled | deeper
  · cases rest <;> simp [filled]
  · cases rest with
    | nil =>
      rw [parts, root] at deeper
      exact absurd rfl deeper
    | cons piece rest => rfl

/-- A path that is taken from a directory on is seen from there as it is spelled. -/
theorem relativeTo?_join {base path : FilePath} (relative : path.isAbsolute = false)
    (within : base.parts ≠ []) (spelled : path.pieces ≠ [] ∨ base.parts ≠ [.root]) :
    (base.join path).relativeTo? base = some path.trimmed := by
  obtain ⟨first, rest, part, leading, parts, begins⟩ := exists_first_before within spelled
  have passed := dropParts_own rest path.pieces
  unfold relativeTo?
  rw [join_eq relative, leading, parts]
  dsimp only [List.cons_append]
  rw [dropParts, if_pos rfl, begins]
  dsimp only
  rw [if_pos rfl]
  cases left : dropParts false (rest ++ path.pieces) (rest.filterMap laterPart?) with
  | none =>
    rw [left] at passed
    cases passed
  | some pieces =>
    rw [left, Option.map_some, Option.some_inj] at passed
    rw [Option.map_some, passed]
    rfl

/-- The names that lead from a directory to a file are the path of the file as seen from there. -/
theorem relativeTo?_join_names {base : FilePath} {names : List String}
    (isName : ∀ name ∈ names, IsName name) (spelled : names ≠ [] ∨ base.parts ≠ [.root]) :
    (base.join ⟨names⟩).relativeTo? base = some ⟨names⟩ := by
  by_cases within : base.parts = []
  · unfold relativeTo?
    rw [join_eq (isAbsolute_names isName), leadingPieces_of_parts within, within]
    rfl
  · rw [relativeTo?_join (isAbsolute_names isName) within spelled, trimmed_names isName]

/-- Names that are taken from a path on are its last parts. -/
theorem parts_join_names {base : FilePath} {names : List String}
    (isName : ∀ name ∈ names, IsName name) (spelled : names ≠ [] ∨ base.parts ≠ [.root]) :
    (base.join ⟨names⟩).parts = base.parts ++ names.map Part.name := by
  rw [join_eq (isAbsolute_names isName)]
  by_cases within : base.parts = []
  · rw [leadingPieces_of_parts within, within]
    exact parts_names isName
  · obtain ⟨first, rest, part, leading, parts, begins⟩ := exists_first_before within spelled
    rw [leading, parts]
    change (firstPart? first (!(rest ++ names).isEmpty)).toList ++
      (rest ++ names).filterMap laterPart? = _
    rw [begins, List.filterMap_append, filterMap_names isName]
    rfl

def Part.chars : Part → List Nat
  | .name text => text.toList.map Char.toNat
  | .root | .here | .up => []

private theorem Part.compare_eq : Part.compare = compareLex (compareOn Part.rank) (compareOn Part.chars) := by
  funext a b
  cases a <;> cases b <;> rfl

instance : Std.TransCmp Part.compare := by
  rw [Part.compare_eq]
  infer_instance

instance : Std.LawfulEqCmp Part.compare where
  eq_of_compare {a b} same := by
    cases a <;> cases b
    case name.name x y =>
      have chars : x.toList.map Char.toNat = y.toList.map Char.toNat :=
        Std.LawfulEqOrd.eq_of_compare same
      have injective : Function.Injective Char.toNat := fun _ _ => Char.toNat_inj.1
      exact congrArg Part.name (String.toList_inj.1 (List.map_injective_iff.2 injective chars))
    all_goals first | rfl | cases same

private theorem compareParts_eq : compareParts = List.compareLex Part.compare := by
  funext as bs
  induction as generalizing bs with
  | nil => cases bs <;> rfl
  | cons a as ih =>
    cases bs with
    | nil => rfl
    | cons b bs => rw [compareParts, List.compareLex_cons_cons, ih]

instance : Std.TransCmp compareParts := by
  rw [compareParts_eq]
  infer_instance

instance : Std.LawfulEqCmp compareParts := by
  rw [compareParts_eq]
  infer_instance

/-- Paths that come at the same place in the order have the same parts. -/
theorem parts_of_compare {a b : FilePath} (same : a.compare b = .eq) : a.parts = b.parts :=
  @Std.LawfulEqCmp.eq_of_compare _ compareParts _ _ _ same

theorem compare_isLE_trans {a b c : FilePath} (ab : (a.compare b).isLE = true)
    (bc : (b.compare c).isLE = true) : (a.compare c).isLE = true :=
  @Std.TransCmp.isLE_trans _ compareParts _ _ _ _ ab bc

theorem compare_swap (a b : FilePath) : a.compare b = (b.compare a).swap :=
  @Std.OrientedCmp.eq_swap _ compareParts _ _ _

theorem compare_isLE_total (a b : FilePath) :
    ((a.compare b).isLE || (b.compare a).isLE) = true := by
  rw [compare_swap a b]
  cases b.compare a <;> rfl

/-- What comes before and after the same is the same. -/
theorem parts_of_isLE {a b : FilePath} (ab : (a.compare b).isLE = true)
    (ba : (b.compare a).isLE = true) : a.parts = b.parts := by
  apply parts_of_compare
  rw [compare_swap] at ab ⊢
  cases order : b.compare a with
  | lt =>
    rw [order] at ab
    cases ab
  | eq => rfl
  | gt =>
    rw [order] at ba
    cases ba

private theorem compareParts_append (front as bs : List Part) :
    compareParts (front ++ as) (front ++ bs) = compareParts as bs := by
  induction front with
  | nil => rfl
  | cons part rest ih =>
    have same : part.compare part = .eq := Std.ReflCmp.compare_self
    rw [List.cons_append, List.cons_append, compareParts, same, ih]
    rfl

/-- A longer name comes later. -/
theorem compare_extended {front : List String} {name suffix : String} (filled : suffix ≠ "")
    (isName : ∀ piece ∈ front ++ [name], IsName piece)
    (otherIsName : ∀ piece ∈ front ++ [name ++ suffix], IsName piece) :
    (FilePath.mk (front ++ [name])).compare ⟨front ++ [name ++ suffix]⟩ = .lt := by
  have longer (chars : List Nat) {rest : List Nat} (filled : rest ≠ []) :
      Ord.compare chars (chars ++ rest) = .lt := by
    induction chars with
    | nil =>
      cases rest with
      | nil => exact absurd rfl filled
      | cons => rfl
    | cons c chars ih =>
      have same : Ord.compare c c = .eq := Std.ReflCmp.compare_self
      rw [List.cons_append]
      change List.compareLex _ _ _ = _
      rw [List.compareLex_cons_cons, same]
      exact ih
  unfold FilePath.compare
  rw [parts_names isName, parts_names otherIsName, List.map_append, List.map_append,
    compareParts_append]
  change (Ord.compare (name.toList.map Char.toNat) ((name ++ suffix).toList.map Char.toNat)).then
    .eq = .lt
  rw [String.toList_append, List.map_append, longer]
  · rfl
  · simpa using filled

end FilePath

namespace Location

open FilePath

/-- The place that a piece leads to from another place. -/
def enter (place : Location) (piece : String) : Location :=
  ((laterPart? piece).map place.follow).getD place

theorem enter_of_isName (place : Location) {piece : String} (isName : IsName piece) :
    place.enter piece = place ++ [piece] := by
  unfold enter
  rw [laterPart?_of_isName isName]
  rfl

theorem enter_of_isIdle (place : Location) {piece : String} (idle : isIdle piece = true) :
    place.enter piece = place := by
  unfold enter
  rw [laterPart?_of_isIdle idle]
  rfl

private theorem enter_of_laterPart? (place : Location) {piece : String} {part : FilePath.Part}
    (found : laterPart? piece = some part) : place.enter piece = place.follow part := by
  unfold enter
  rw [found]
  rfl

/-- The first piece of a path leads from the root where it leads from anywhere. -/
theorem enter_first {piece : String} {more : Bool} :
    ((firstPart? piece more).toList.foldl follow []) = enter [] piece := by
  unfold enter firstPart? laterPart? isIdle
  by_cases empty : piece = ""
  · cases more <;> simp [empty, follow]
  · by_cases here : piece = "."
    · simp [here, follow]
    · by_cases up : piece = ".." <;> simp [empty, here, up, follow]

private theorem foldl_laterParts (place : Location) (pieces : List String) :
    (pieces.filterMap laterPart?).foldl follow place = pieces.foldl enter place := by
  induction pieces generalizing place with
  | nil => rfl
  | cons piece rest ih =>
    cases found : laterPart? piece with
    | none =>
      have stays : place.enter piece = place := by
        unfold enter
        rw [found]
        rfl
      rw [List.filterMap_cons_none found, ih, List.foldl_cons, stays]
    | some part =>
      rw [List.filterMap_cons_some found, List.foldl_cons, ih, List.foldl_cons,
        enter_of_laterPart? place found]

/-- A path leads from the root piece by piece. -/
theorem ofPath_eq (path : FilePath) : ofPath path = path.pieces.foldl enter [] := by
  obtain ⟨pieces⟩ := path
  cases pieces with
  | nil => rfl
  | cons first later =>
    unfold ofPath FilePath.parts
    dsimp only
    rw [List.foldl_append, enter_first, foldl_laterParts]
    rfl

theorem foldl_names (place : Location) {names : List String} (isName : ∀ name ∈ names, IsName name) :
    names.foldl enter place = place ++ names := by
  induction names generalizing place with
  | nil => exact (List.append_nil place).symm
  | cons name rest ih =>
    obtain ⟨first, later⟩ := List.forall_mem_cons.1 isName
    rw [List.foldl_cons, enter_of_isName place first, ih _ later, List.append_assoc]
    rfl

/-- A path that is taken from another one on goes on from its place. -/
theorem ofPath_join {base path : FilePath} (relative : path.isAbsolute = false) :
    ofPath (base.join path) = path.pieces.foldl enter (ofPath base) := by
  have leading : base.leadingPieces.foldl enter [] = base.pieces.foldl enter [] := by
    rcases pieces_cases base with same | same
    · exact congrArg _ same.symm
    · rw [same, List.foldl_append]
      exact (@enter_of_isIdle _ "" rfl).symm
  rw [ofPath_eq, ofPath_eq, join_eq relative, List.foldl_append, leading]

private theorem foldl_dropWhile_isIdle (place : Location) (pieces : List String) :
    (pieces.dropWhile isIdle).foldl enter place = pieces.foldl enter place := by
  induction pieces with
  | nil => rfl
  | cons piece rest ih =>
    by_cases idle : isIdle piece = true
    · rw [List.dropWhile_cons_of_pos idle, ih, List.foldl_cons, enter_of_isIdle place idle]
    · rw [List.dropWhile_cons_of_neg idle]

private theorem foldl_trimmed (place : Location) (path : FilePath) :
    path.trimmed.pieces.foldl enter place = path.pieces.foldl enter place := by
  have later (pieces : List String) :
      (pieces.reverse.dropWhile isIdle).reverse.foldl enter place = pieces.foldl enter place := by
    induction pieces using List.reverseRecOn with
    | nil => rfl
    | append_singleton front last ih =>
      rw [List.reverse_append, List.reverse_singleton, List.singleton_append]
      by_cases idle : isIdle last = true
      · rw [List.dropWhile_cons_of_pos idle, ih, List.foldl_append]
        exact (enter_of_isIdle _ idle).symm
      · rw [List.dropWhile_cons_of_neg idle, ← List.reverse_concat', List.reverse_reverse]
  unfold trimmed
  rw [later, foldl_dropWhile_isIdle]

/-- Passed parts lead to where the rest goes on. -/
theorem foldl_dropParts {first : Bool} {pieces rest : List String} {parts : List FilePath.Part}
    {place : Location} (root : first = true → place = [])
    (passed : dropParts first pieces parts = some rest) :
    pieces.foldl enter place = rest.foldl enter (parts.foldl follow place) := by
  induction pieces generalizing first parts place with
  | nil =>
    cases parts with
    | nil =>
      rw [dropParts] at passed
      cases passed
      rfl
    | cons part parts => cases passed
  | cons piece later ih =>
    cases parts with
    | nil =>
      rw [dropParts] at passed
      cases passed
      rfl
    | cons part parts =>
      have enters (part? : Option FilePath.Part)
          (own : (if first then firstPart? piece (!later.isEmpty) else laterPart? piece) = part?) :
          place.enter piece = part?.toList.foldl follow place := by
        cases first with
        | true =>
          rw [root rfl, ← @enter_first piece (!later.isEmpty), ← own]
          rfl
        | false =>
          rw [← own]
          unfold enter
          cases laterPart? piece <;> rfl
      rw [dropParts] at passed
      rw [List.foldl_cons]
      cases own : (if first then firstPart? piece (!later.isEmpty) else laterPart? piece) with
      | none =>
        rw [own] at passed
        rw [enters none own]
        exact ih (absurd · Bool.false_ne_true) passed
      | some found =>
        rw [own] at passed
        dsimp only at passed
        split at passed
        · rename_i same
          rw [enters _ own, same]
          exact ih (absurd · Bool.false_ne_true) passed
        · cases passed

/-- A path leads from the directory that it is seen from to the same place. -/
theorem ofPath_of_relativeTo? {path base seen : FilePath} (found : path.relativeTo? base = some seen) :
    ofPath path = seen.pieces.foldl enter (ofPath base) := by
  unfold relativeTo? at found
  split at found
  · rename_i empty
    cases found
    rw [ofPath_eq, ofPath, empty]
    rfl
  · obtain ⟨rest, passed, rfl⟩ := Option.map_eq_some_iff.1 found
    have trimmed := foldl_trimmed (ofPath base) ⟨rest⟩
    exact (ofPath_eq path).trans ((foldl_dropParts (fun _ => rfl) passed).trans trimmed.symm)

end Location

end TypedSvelte
