import TypedSvelte.Proofs.Workspace.Descent
import TypedSvelte.Proofs.Workspace.Trees

/-!
# Trees that grow

Writing files and making the directories around them removes nothing, and no place of a file becomes
that of a directory (`Tree.Grows`). So a file that was not written itself is read from the grown tree
as before (`Tree.Grows.read`), and the tree stays proper (`Tree.Proper.write`).
-/
namespace TypedSvelte

open FilePath

/-- A path leads to a place by names only. -/
theorem Location.isName_ofPath (path : FilePath) : ∀ name ∈ Location.ofPath path, IsName name := by
  have fold (pieces : List String) (place : Location) (named : ∀ name ∈ place, IsName name) :
      ∀ name ∈ pieces.foldl Location.enter place, IsName name := by
    induction pieces generalizing place with
    | nil => exact named
    | cons piece rest ih =>
      refine ih _ ?_
      rcases piece_cases piece with idle | rfl | isName
      · rw [Location.enter_of_isIdle place idle]
        exact named
      · exact fun name member => named name (List.mem_of_mem_dropLast member)
      · rw [Location.enter_of_isName place isName]
        exact List.forall_mem_append.2 ⟨named, List.forall_mem_singleton.2 isName⟩
  rw [Location.ofPath_eq]
  exact fold _ [] nofun

namespace Tree

variable {tree grown next : Tree} {place other : Location}

private theorem isDirectory_iff : tree.isDirectory place = true ↔
    place = [] ∨ (∃ directory ∈ tree.directories, place <+: directory) ∨
      ∃ file ∈ tree.files, place <+: file.1 ∧ place ≠ file.1 := by
  simp [isDirectory, isAbove, or_assoc]

/-- What is around a directory is a directory. -/
theorem isDirectory_of_prefix (around : place <+: other) (directory : tree.isDirectory other = true) :
    tree.isDirectory place = true := by
  rw [isDirectory_iff] at directory ⊢
  rcases directory with rfl | ⟨listed, member, below⟩ | ⟨file, member, below, differs⟩
  · exact .inl (List.prefix_nil.1 around)
  · exact .inr (.inl ⟨listed, member, around.trans below⟩)
  · refine .inr (.inr ⟨file, member, around.trans below, ?_⟩)
    rintro rfl
    exact differs (below.eq_of_length (Nat.le_antisymm below.length_le around.length_le))

/-- Parts lead only to places in directories. -/
theorem isDirectory_dropLast {parts : List Part} (located : tree.locate parts = .ok place) :
    tree.isDirectory place.dropLast = true := by
  have fold (parts : List Part) (start : Location)
      (begins : tree.isDirectory start.dropLast = true)
      (leads : parts.foldlM tree.step start = .ok place) :
      tree.isDirectory place.dropLast = true := by
    induction parts generalizing start with
    | nil =>
      cases leads
      exact begins
    | cons part rest ih =>
      obtain ⟨next, stepped, leads⟩ := exists_of_bind_ok leads
      refine ih next ?_ leads
      unfold step at stepped
      split at stepped
      · rename_i here
        cases stepped
        cases part with
        | root => rfl
        | here => exact begins
        | up => exact isDirectory_of_prefix (List.dropLast_prefix _) begins
        | name text =>
          change tree.isDirectory (start ++ [text]).dropLast = true
          rw [List.dropLast_concat]
          exact here
      · split at stepped <;> cases stepped
  exact fold parts [] rfl located

/-- All files and directories are still there, and no file has become a directory. -/
structure Grows (tree grown : Tree) : Prop where
  file : ∀ place, (tree.file? place).isSome = true → (grown.file? place).isSome = true
  directory : ∀ place, tree.isDirectory place = true → grown.isDirectory place = true
  apart : ∀ place, (tree.file? place).isSome = true → grown.isDirectory place = true →
    tree.isDirectory place = true

theorem Grows.refl (tree : Tree) : tree.Grows tree :=
  ⟨fun _ there => there, fun _ there => there, fun _ _ there => there⟩

theorem Grows.trans (first : tree.Grows grown) (second : grown.Grows next) : tree.Grows next where
  file place there := second.file place (first.file place there)
  directory place there := second.directory place (first.directory place there)
  apart place file there := first.apart place file (second.apart place (first.file place file) there)

/-- What is around a place that parts lead to is a directory. -/
theorem isDirectory_around {parts : List Part} (located : tree.locate parts = .ok other)
    (around : place <+: other) (differs : place ≠ other) : tree.isDirectory place = true := by
  have shorter : place.length < other.length :=
    Nat.lt_of_le_of_ne around.length_le fun same => differs (around.eq_of_length same)
  refine isDirectory_of_prefix ?_ (isDirectory_dropLast located)
  refine List.prefix_of_prefix_length_le around (List.dropLast_prefix other) ?_
  rw [List.length_dropLast]
  omega

private theorem grows_makeDirectory {parts : List Part} (made : tree.makeDirectory parts = .ok grown) :
    tree.Grows grown := by
  obtain ⟨place, located, free, rfl⟩ := exists_of_makeDirectory made
  refine ⟨fun _ there => there, fun asked there => ?_, fun asked file there => ?_⟩
  · rw [isDirectory_iff] at there ⊢
    exact there.imp_right (Or.imp_left fun ⟨directory, member, below⟩ =>
      ⟨directory, List.mem_append_left _ member, below⟩)
  · rw [isDirectory_iff] at there
    rcases there with top | ⟨directory, member, below⟩ | above
    · exact isDirectory_iff.2 (.inl top)
    · rcases List.mem_append.1 member with before | new
      · exact isDirectory_iff.2 (.inr (.inl ⟨directory, before, below⟩))
      -- a directory is made where no file is, so only what is around it could be new
      · rw [List.mem_singleton.1 new] at below
        refine isDirectory_around located below ?_
        rintro rfl
        cases file.symm.trans (Bool.or_eq_false_iff.1 free).2
    · exact isDirectory_iff.2 (.inr (.inr above))

private theorem grows_makeDirectories (tree : Tree) (parts : List Part) :
    tree.Grows (tree.makeDirectories parts).1 := by
  induction parts with
  | nil => exact .refl tree
  | cons part earlier ih =>
    unfold makeDirectories
    dsimp only
    split
    · rename_i made done
      exact grows_makeDirectory done
    · split
      · rename_i grown fault around
        rw [around] at ih
        exact ih
      · rename_i grown around
        rw [around] at ih
        split
        · rename_i made done
          exact ih.trans (grows_makeDirectory done)
        · exact ih
    · exact .refl tree

private theorem grows_writeFile {parts : List Part} {text : String}
    (written : tree.writeFile parts text = .ok grown) : tree.Grows grown := by
  obtain ⟨place, located, _, rfl⟩ := exists_of_writeFile written
  refine ⟨fun asked there => ?_, fun asked there => ?_, fun asked file there => ?_⟩
  · unfold file?
    dsimp only
    rw [lookup_putFile]
    split
    · rfl
    · exact there
  · unfold isDirectory at there ⊢
    dsimp only
    rw [any_putFile (isAbove asked), ← Bool.or_assoc, there, Bool.true_or]
  · unfold isDirectory at there
    dsimp only at there
    rw [any_putFile (isAbove asked), ← Bool.or_assoc, Bool.or_eq_true] at there
    rcases there with before | above
    · exact before
    · simp only [isAbove, Bool.and_eq_true, List.isPrefixOf_iff_prefix, bne_iff_ne] at above
      exact isDirectory_around located above.1 above.2

theorem grows_write (tree : Tree) (path : FilePath) (text : String) :
    tree.Grows (tree.write path text).1 := by
  have around := grows_makeDirectories tree path.directoryParts.reverse
  rcases write_steps tree path text with ⟨_, same⟩ | ⟨_, written⟩
  · rw [same]
    exact around
  · exact around.trans (grows_writeFile written)

private theorem keys_putFile {files : List (Location × String)} {text : String} :
    (putFile place text files).map (·.1) =
      if place ∈ files.map (·.1) then files.map (·.1) else files.map (·.1) ++ [place] := by
  induction files with
  | nil => rfl
  | cons file rest ih =>
    obtain ⟨key, old⟩ := file
    rw [putFile]
    by_cases same : key = place
    · subst same
      simp
    · rw [if_neg same, List.map_cons, ih]
      simp only [List.map_cons, List.mem_cons, Ne.symm same, false_or]
      split <;> rfl

private theorem proper_of_keys (distinct : (tree.files.map (·.1)).Nodup)
    (named : ∀ key ∈ tree.files.map (·.1), key ≠ [] ∧ ∀ name ∈ key, IsName name) : tree.Proper :=
  ⟨distinct, fun _ listed => named _ (List.mem_map_of_mem listed)⟩

theorem Proper.writeFile {path : FilePath} {text : String} (proper : tree.Proper)
    (written : tree.writeFile path.parts text = .ok grown) : grown.Proper := by
  obtain ⟨place, located, inside, rfl⟩ := exists_of_writeFile written
  have here : place = Location.ofPath path := eq_follow_of_locate located
  have named : ∀ key ∈ tree.files.map (·.1), key ≠ [] ∧ ∀ name ∈ key, IsName name :=
    List.forall_mem_map.2 proper.named
  have new : place ≠ [] ∧ ∀ name ∈ place, IsName name := by
    refine ⟨?_, here ▸ Location.isName_ofPath path⟩
    rintro rfl
    cases inside
  refine proper_of_keys ?_ ?_
  · dsimp only
    rw [keys_putFile]
    split
    · exact proper.distinct
    · rename_i absent
      exact List.nodup_append_comm.2 (List.nodup_cons.2 ⟨absent, proper.distinct⟩)
  · dsimp only
    rw [keys_putFile]
    split
    · exact named
    · exact List.forall_mem_append.2 ⟨named, List.forall_mem_singleton.2 new⟩

theorem Proper.write (proper : tree.Proper) (path : FilePath) (text : String) :
    (tree.write path text).1.Proper := by
  have same := files_makeDirectories tree path.directoryParts.reverse
  have around : (tree.makeDirectories path.directoryParts.reverse).1.Proper :=
    ⟨same ▸ proper.distinct, same ▸ proper.named⟩
  rcases write_steps tree path text with ⟨_, same⟩ | ⟨_, written⟩
  · rw [same]
    exact around
  · exact around.writeFile written

theorem isSome_file?_iff :
    (tree.file? place).isSome = true ↔ place ∈ tree.files.map (·.1) := by
  unfold file?
  rw [List.lookup_isSome_iff, List.mem_map]
  simp only [beq_iff_eq, @eq_comm _ place]

/-- Names lead on from a directory to a file below it. -/
theorem locate_names {parts : List Part} {directory names : Location}
    (located : tree.locate parts = .ok directory)
    (listed : directory ++ names ∈ tree.files.map (·.1)) :
    tree.locate (parts ++ names.map Part.name) = .ok (directory ++ names) := by
  have fold (names : List String) (start : Location) (below : start ++ names ∈ tree.files.map (·.1)) :
      (names.map Part.name).foldlM tree.step start = .ok (start ++ names) := by
    induction names generalizing start with
    | nil =>
      rw [List.append_nil]
      rfl
    | cons name rest ih =>
      obtain ⟨file, member, place⟩ := List.mem_map.1 below
      have around : tree.isDirectory start = true := by
        refine isDirectory_iff.2 (.inr (.inr ⟨file, member, ?_, ?_⟩))
        · exact place ▸ List.prefix_append _ _
        · rw [place]
          exact fun same => List.cons_ne_nil name rest (List.self_eq_append_right.1 same)
      rw [List.append_cons] at below ⊢
      rw [List.map_cons, List.foldlM_cons, step, if_pos around]
      exact ih (start ++ [name]) below
  unfold locate at located ⊢
  rw [List.foldlM_append, located]
  exact fold names directory listed

/-- Parts lead on to where they led before. -/
theorem Grows.locate (grows : tree.Grows grown) {parts : List Part}
    (located : tree.locate parts = .ok place) : grown.locate parts = .ok place := by
  have fold (parts : List Part) (start : Location) (leads : parts.foldlM tree.step start = .ok place) :
      parts.foldlM grown.step start = .ok place := by
    induction parts generalizing start with
    | nil => exact leads
    | cons part rest ih =>
      rw [List.foldlM_cons] at leads ⊢
      by_cases directory : tree.isDirectory start = true
      · rw [step, if_pos directory] at leads
        rw [step, if_pos (grows.directory start directory)]
        exact ih _ leads
      · rw [step, if_neg directory] at leads
        split at leads <;> cases leads
  exact fold parts [] located

/-- A file that was not written itself is read as before. -/
theorem Grows.read (grows : tree.Grows grown) {path : FilePath}
    (located : tree.locate path.parts = .ok place) (file : (tree.file? place).isSome = true)
    (kept : grown.file? place = tree.file? place) : grown.read path = tree.read path := by
  have directory : grown.isDirectory place = tree.isDirectory place :=
    Bool.eq_iff_iff.2 ⟨grows.apart place file, grows.directory place⟩
  unfold Tree.read
  rw [located, grows.locate located]
  change (if grown.isDirectory place = true then _ else _) =
    (if tree.isDirectory place = true then _ else _)
  rw [directory, kept]

end Tree

end TypedSvelte
