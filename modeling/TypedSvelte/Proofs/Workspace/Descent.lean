import Mathlib.Data.Fintype.EquivFin
import Mathlib.Data.List.DropRight
import TypedSvelte.Proofs.Workspace.Paths

/-!
# Paths that stay below a directory

Two dots can lead a path out of the directory that it is taken from. A path that never does so leads,
from every directory, to the same names below it (`FilePath.Stays.ofPath_join`); any other path leads
out of some directory (`FilePath.stays_iff`).
-/
namespace TypedSvelte.FilePath

open Location

/-- The pieces never lead out of the directory that is `depth` directories above. -/
def descends (depth : Nat) : List String → Bool
  | [] => true
  | piece :: rest =>
    match laterPart? piece, depth with
    | some .up, 0 => false
    | some .up, depth + 1 => descends depth rest
    | some (.name _), depth => descends (depth + 1) rest
    | _, depth => descends depth rest

/-- The path leads to somewhere below the directory that it is taken from, and never out of it on
the way. -/
structure Stays (path : FilePath) : Prop where
  relative : path.isAbsolute = false
  down : descends 0 path.pieces = true

instance (path : FilePath) : Decidable path.Stays :=
  decidable_of_iff (path.isAbsolute = false ∧ descends 0 path.pieces = true)
    ⟨fun both => ⟨both.1, both.2⟩, fun stays => ⟨stays.relative, stays.down⟩⟩

/-- What a piece can be. -/
theorem piece_cases (piece : String) : isIdle piece = true ∨ piece = ".." ∨ IsName piece := by
  unfold isIdle IsName
  by_cases filled : piece = "" <;> by_cases here : piece = "." <;> by_cases up : piece = ".." <;>
    simp [filled, here, up]

section

variable {depth : Nat} {piece : String} {rest : List String}

private theorem descends_idle (idle : isIdle piece = true) :
    descends depth (piece :: rest) = descends depth rest := by
  conv_lhs => unfold descends
  rw [laterPart?_of_isIdle idle]

private theorem descends_up : descends (depth + 1) (".." :: rest) = descends depth rest := rfl

private theorem descends_name (isName : IsName piece) :
    descends depth (piece :: rest) = descends (depth + 1) rest := by
  conv_lhs => unfold descends
  rw [laterPart?_of_isName isName]

end

/-- Pieces that descend go on from a place as they go on from the root. -/
theorem foldl_descends (place : Location) {above : Location} {pieces : List String}
    (down : descends above.length pieces = true) :
    pieces.foldl enter (place ++ above) = place ++ pieces.foldl enter above := by
  induction pieces generalizing above with
  | nil => rfl
  | cons piece rest ih =>
    rw [List.foldl_cons, List.foldl_cons]
    rcases piece_cases piece with idle | rfl | isName
    · rw [descends_idle idle] at down
      rw [enter_of_isIdle _ idle, enter_of_isIdle _ idle]
      exact ih down
    · cases above using List.reverseRecOn with
      | nil => cases down
      | append_singleton above last =>
        rw [List.length_append, List.length_singleton, descends_up] at down
        change rest.foldl enter (place ++ (above ++ [last])).dropLast =
          place ++ rest.foldl enter (above ++ [last]).dropLast
        rw [← List.append_assoc, List.dropLast_concat, List.dropLast_concat]
        exact ih down
    · rw [descends_name isName] at down
      rw [enter_of_isName _ isName, enter_of_isName _ isName, List.append_assoc]
      apply ih
      rw [List.length_append]
      exact down

theorem Stays.foldl_enter {path : FilePath} (stays : path.Stays) (place : Location) :
    path.pieces.foldl enter place = place ++ ofPath path := by
  have below := @foldl_descends place [] path.pieces stays.down
  rwa [List.append_nil, ← ofPath_eq] at below

/-- A path that stays leads from every directory to the same names below it. -/
theorem Stays.ofPath_join {path : FilePath} (stays : path.Stays) (base : FilePath) :
    ofPath (base.join path) = ofPath base ++ ofPath path := by
  rw [Location.ofPath_join stays.relative, stays.foldl_enter]

private theorem descends_names (depth : Nat) {names : List String} (isName : ∀ name ∈ names, IsName name) :
    descends depth names = true := by
  induction names generalizing depth with
  | nil => rfl
  | cons name rest ih =>
    obtain ⟨first, later⟩ := List.forall_mem_cons.1 isName
    rw [descends_name first]
    exact ih (depth + 1) later

/-- Names lead down. -/
theorem stays_names {names : List String} (isName : ∀ name ∈ names, IsName name) :
    (FilePath.mk names).Stays := ⟨isAbsolute_names isName, descends_names 0 isName⟩

private theorem mem_foldl_enter {name : String} {pieces : List String} {place : Location}
    (member : name ∈ pieces.foldl enter place) : name ∈ place ∨ name ∈ pieces := by
  induction pieces generalizing place with
  | nil => exact .inl member
  | cons piece rest ih =>
    rcases ih member with here | later
    · rcases piece_cases piece with idle | rfl | isName
      · rw [enter_of_isIdle _ idle] at here
        exact .inl here
      · exact .inl (List.mem_of_mem_dropLast here)
      · rw [enter_of_isName _ isName, List.mem_append, List.mem_singleton] at here
        rcases here with here | rfl
        · exact .inl here
        · exact .inr List.mem_cons_self
    · exact .inr (List.mem_cons_of_mem piece later)

/-- Pieces that do not descend lead out of a directory whose name they do not mention. -/
theorem not_prefix_foldl {fresh : String} {above : Location} {pieces : List String}
    (unmentioned : fresh ∉ pieces) (notAbove : fresh ∉ above)
    (climbs : descends above.length pieces = false) :
    ¬ [fresh] <+: pieces.foldl enter (fresh :: above) := by
  induction pieces generalizing above with
  | nil => cases climbs
  | cons piece rest ih =>
    obtain ⟨differs, later⟩ := not_or.1 (mt List.mem_cons.2 unmentioned)
    rw [List.foldl_cons]
    rcases piece_cases piece with idle | rfl | isName
    · rw [descends_idle idle] at climbs
      rw [enter_of_isIdle _ idle]
      exact ih later notAbove climbs
    · cases above using List.reverseRecOn with
      | nil =>
        rintro ⟨below, same⟩
        have held : fresh ∈ rest.foldl enter [] := by
          change _ = rest.foldl enter [] at same
          rw [← same]
          exact List.mem_cons_self
        rcases mem_foldl_enter held with none | mentioned
        · cases none
        · exact later mentioned
      | append_singleton above last =>
        rw [List.length_append, List.length_singleton, descends_up] at climbs
        change ¬ [fresh] <+: rest.foldl enter (fresh :: (above ++ [last])).dropLast
        rw [← List.cons_append, List.dropLast_concat]
        exact ih later (fun held => notAbove (List.mem_append_left _ held)) climbs
    · rw [descends_name isName] at climbs
      rw [enter_of_isName _ isName]
      have deeper : descends (above ++ [piece]).length rest = false := by
        rw [List.length_append]
        exact climbs
      refine ih later (fun held => ?_) deeper
      rcases List.mem_append.1 held with held | held
      · exact notAbove held
      · exact differs (List.mem_singleton.1 held)

/-- There is a name that is none of the texts. -/
theorem exists_fresh (texts : List String) : ∃ fresh, fresh ∉ texts ∧ IsName fresh := by
  obtain ⟨fresh, other⟩ := Infinite.exists_notMem_finset (["", ".", ".."] ++ texts).toFinset
  rw [List.mem_toFinset, List.mem_append, not_or] at other
  obtain ⟨special, unmentioned⟩ := other
  simp only [List.mem_cons, List.not_mem_nil, or_false, not_or] at special
  exact ⟨fresh, unmentioned, special⟩

/-- A path stays if and only if it leads below every directory. -/
theorem stays_iff {path : FilePath} :
    path.Stays ↔ ∀ directory : FilePath, ofPath directory <+: ofPath (directory.join path) := by
  constructor
  · intro stays directory
    rw [stays.ofPath_join]
    exact List.prefix_append _ _
  · intro below
    obtain ⟨fresh, unmentioned, isName⟩ := exists_fresh path.pieces
    have start : ofPath ⟨[fresh]⟩ = [fresh] := by
      rw [ofPath_eq]
      exact foldl_names [] (List.forall_mem_singleton.2 isName)
    have inside := below ⟨[fresh]⟩
    rw [start] at inside
    have relative : path.isAbsolute = false := by
      by_contra absolute
      rw [Bool.not_eq_false] at absolute
      rw [join, if_pos absolute, ofPath_eq] at inside
      obtain ⟨rest, same⟩ := inside
      have held : fresh ∈ path.pieces.foldl enter [] := by
        rw [← same]
        exact List.mem_cons_self
      rcases mem_foldl_enter held with none | mentioned
      · cases none
      · exact unmentioned mentioned
    refine ⟨relative, ?_⟩
    by_contra climbs
    rw [Bool.not_eq_true] at climbs
    rw [Location.ofPath_join relative, start] at inside
    exact @not_prefix_foldl fresh [] path.pieces unmentioned List.not_mem_nil climbs inside

private theorem descends_dropWhile_isIdle (depth : Nat) (pieces : List String) :
    descends depth (pieces.dropWhile isIdle) = descends depth pieces := by
  induction pieces with
  | nil => rfl
  | cons piece rest ih =>
    by_cases idle : isIdle piece = true
    · rw [List.dropWhile_cons_of_pos idle, ih, descends_idle idle]
    · rw [List.dropWhile_cons_of_neg idle]

/-- Only two dots at the end can lead further up. -/
theorem descends_concat (depth : Nat) (front : List String) {last : String} (notUp : last ≠ "..") :
    descends depth (front ++ [last]) = descends depth front := by
  induction front generalizing depth with
  | nil =>
    rcases piece_cases last with idle | up | isName
    · exact descends_idle idle
    · exact absurd up notUp
    · exact descends_name isName
  | cons piece rest ih =>
    rw [List.cons_append]
    rcases piece_cases piece with idle | rfl | isName
    · rw [descends_idle idle, descends_idle idle, ih]
    · cases depth with
      | zero => rfl
      | succ depth => rw [descends_up, descends_up, ih]
    · rw [descends_name isName, descends_name isName, ih]

private theorem descends_dropWhile_reverse (depth : Nat) (pieces : List String) :
    descends depth (pieces.reverse.dropWhile isIdle).reverse = descends depth pieces := by
  induction pieces using List.reverseRecOn with
  | nil => rfl
  | append_singleton front last ih =>
    rw [List.reverse_append, List.reverse_singleton, List.singleton_append]
    by_cases idle : isIdle last = true
    · have notUp : last ≠ ".." := by
        rintro rfl
        cases idle
      rw [List.dropWhile_cons_of_pos idle, ih, descends_concat depth front notUp]
    · rw [List.dropWhile_cons_of_neg idle, ← List.reverse_concat', List.reverse_reverse]

/-- A path begins with a slash if its first piece is empty and not the only one. -/
theorem isAbsolute_cons (first : String) (later : List String) :
    (FilePath.mk (first :: later)).isAbsolute = (first == "" && !later.isEmpty) := by
  unfold isAbsolute parts
  dsimp only
  by_cases empty : first = ""
  · cases later with
    | nil =>
      rw [empty]
      rfl
    | cons piece rest =>
      rw [empty]
      rfl
  · rw [beq_eq_false_iff_ne.2 empty, Bool.false_and]
    rcases piece_cases first with idle | rfl | isName
    · have here : first = "." := by
        unfold isIdle at idle
        simpa [empty] using idle
      rw [here]
      rfl
    · rfl
    · rw [firstPart?_of_isName isName]
      rfl

/-- No idle piece begins a path as seen from a directory. -/
theorem isAbsolute_trimmed (path : FilePath) : path.trimmed.isAbsolute = false := by
  obtain ⟨pieces⟩ := path
  have first := List.head?_dropWhile_not isIdle pieces
  have kept := List.rdropWhile_prefix isIdle (pieces.dropWhile isIdle)
  change (FilePath.mk ((pieces.dropWhile isIdle).rdropWhile isIdle)).isAbsolute = false
  cases trimmed : (pieces.dropWhile isIdle).rdropWhile isIdle with
  | nil => rfl
  | cons piece later =>
    rw [trimmed] at kept
    obtain ⟨rest, whole⟩ := kept
    rw [← whole] at first
    have filled : piece ≠ "" := by
      rintro rfl
      cases first
    rw [isAbsolute_cons, beq_eq_false_iff_ne.2 filled, Bool.false_and]

theorem stays_trimmed_iff {path : FilePath} (relative : path.isAbsolute = false) :
    path.trimmed.Stays ↔ path.Stays := by
  have same : descends 0 path.trimmed.pieces = descends 0 path.pieces :=
    (descends_dropWhile_reverse 0 _).trans (descends_dropWhile_isIdle 0 _)
  exact ⟨fun stays => ⟨relative, same ▸ stays.down⟩,
    fun stays => ⟨path.isAbsolute_trimmed, same.trans stays.down⟩⟩

private theorem wantsDirectory_trimmed (path : FilePath) : path.trimmed.wantsDirectory = false := by
  have last := List.head?_dropWhile_not isIdle (path.pieces.dropWhile isIdle).reverse
  unfold trimmed wantsDirectory
  rw [List.getLast?_reverse]
  split at last
  · rename_i piece head
    rw [head]
    exact last
  · rename_i head
    rw [head]
    rfl

/-- A path of a file is that of a file also as seen from a directory. -/
theorem wantsDirectory_of_relativeTo? {path base seen : FilePath}
    (found : path.relativeTo? base = some seen) (file : path.wantsDirectory = false) :
    seen.wantsDirectory = false := by
  unfold relativeTo? at found
  split at found
  · cases found
    exact file
  · obtain ⟨rest, passed, rfl⟩ := Option.map_eq_some_iff.1 found
    exact wantsDirectory_trimmed ⟨rest⟩

/-- A path with an extension ends in a piece that is no two dots, and in the name of the file if it
can be that of a file. -/
theorem exists_last {path : FilePath} {extension : String}
    (found : path.extension? = some extension) :
    ∃ front last, path.pieces = front ++ [last] ∧ last ≠ ".." ∧
      (path.wantsDirectory = false → IsName last) := by
  obtain ⟨pieces⟩ := path
  cases pieces using List.reverseRecOn with
  | nil => cases found
  | append_singleton front last =>
    have notUp : last ≠ ".." := by
      rintro rfl
      have ends : (FilePath.mk (front ++ [".."])).parts.getLast? = some .up := by
        cases front with
        | nil => rfl
        | cons first later =>
          unfold parts
          rw [List.cons_append]
          dsimp only
          rw [List.filterMap_append, ← List.append_assoc]
          exact List.getLast?_concat
      unfold extension? fileName? at found
      rw [ends] at found
      cases found
    refine ⟨front, last, rfl, notUp, fun file => ?_⟩
    unfold wantsDirectory at file
    rw [List.getLast?_concat] at file
    rcases piece_cases last with idle | up | isName
    · cases idle.symm.trans file
    · exact absurd up notUp
    · exact isName

theorem isAbsolute_concat (front : List String) (last other : String) :
    (FilePath.mk (front ++ [last])).isAbsolute = (FilePath.mk (front ++ [other])).isAbsolute := by
  cases front with
  | nil =>
    rw [List.nil_append, List.nil_append, isAbsolute_cons, isAbsolute_cons]
    simp
  | cons first later =>
    rw [List.cons_append, List.cons_append, isAbsolute_cons, isAbsolute_cons]
    cases later <;> rfl

theorem extendedBy_concat (front : List String) (last suffix : String) :
    (FilePath.mk (front ++ [last])).extendedBy suffix = ⟨front ++ [last ++ suffix]⟩ := by
  unfold extendedBy
  rw [List.dropLast_concat, List.getLast?_concat]
  rfl

/-- A suffix is added to the last piece, whatever the path is taken from. -/
theorem join_extendedBy (base : FilePath) (front : List String) (last suffix : String) :
    (base.join ⟨front ++ [last]⟩).extendedBy suffix = base.join ⟨front ++ [last ++ suffix]⟩ := by
  cases absolute : (FilePath.mk (front ++ [last])).isAbsolute with
  | true =>
    have too := (isAbsolute_concat front last (last ++ suffix)).symm.trans absolute
    unfold join
    rw [if_pos absolute, if_pos too, extendedBy_concat]
  | false =>
    have too := (isAbsolute_concat front last (last ++ suffix)).symm.trans absolute
    rw [join_eq absolute, join_eq too, ← List.append_assoc, ← List.append_assoc, extendedBy_concat]

theorem ofPath_concat (front : List String) {name : String} (isName : IsName name) :
    ofPath ⟨front ++ [name]⟩ = ofPath ⟨front⟩ ++ [name] := by
  rw [ofPath_eq, ofPath_eq, List.foldl_append]
  exact enter_of_isName _ isName

/-- The names that a path leads by end with that of the file. -/
theorem exists_ofPath {path : FilePath} {name : String} (named : path.fileName? = some name) :
    ∃ above, ofPath path = above ++ [name] := by
  unfold fileName? at named
  split at named
  · rename_i text ends
    cases named
    obtain ⟨front, whole⟩ := List.getLast?_eq_some_iff.1 ends
    refine ⟨front.foldl follow [], ?_⟩
    rw [ofPath, whole, List.foldl_append]
    rfl
  · cases named

theorem splitName_extended {name : String} (filled : name ≠ "") :
    splitName (name ++ ".ts") = (name, some "ts") := by
  have chars : (name ++ ".ts").toList = name.toList ++ ['.', 't', 's'] := String.toList_append
  have extension : ((name.toList ++ ['.', 't', 's']).reverse.takeWhile (· != '.')).reverse =
      ['t', 's'] := by
    rw [List.reverse_append]
    rfl
  have stem : (name.toList ++ ['.', 't', 's']).take
      ((name.toList ++ ['.', 't', 's']).length - ['t', 's'].length - 1) = name.toList := by
    rw [List.length_append]
    exact List.take_left
  have nonempty : name.toList ≠ [] := mt String.toList_eq_nil_iff.1 filled
  unfold splitName
  dsimp only
  rw [chars, extension, stem, if_neg (by simp [nonempty]), String.ofList_toList]

end TypedSvelte.FilePath
