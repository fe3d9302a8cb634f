import TypedSvelte.Proofs.Outcome
import TypedSvelte.Proofs.Workspace.Paths

/-!
# What is in a tree

Reading, searching and writing ask a tree for what is at a place and for nothing else, so trees that
agree on that are changed alike (`Tree.Agrees.write`). It does not matter in which order a tree lists
its files. Writing a file changes nothing but the file that the path leads to (`Tree.write_cases`).
-/
namespace TypedSvelte.Tree

open FilePath

/-- The same files and directories are at all places. -/
structure Agrees (tree other : Tree) : Prop where
  file : ∀ place, other.file? place = tree.file? place
  directory : ∀ place, other.isDirectory place = tree.isDirectory place

/-- Both operations fail for the same reason, or lead to trees that agree. -/
inductive AgreesOn : Except FileFault Tree → Except FileFault Tree → Prop where
  | ok {tree other : Tree} (agrees : tree.Agrees other) : AgreesOn (.ok tree) (.ok other)
  | error (fault : FileFault) : AgreesOn (.error fault) (.error fault)

theorem any_putFile (f : Location → Bool) (place : Location) (text : String)
    (files : List (Location × String)) :
    (putFile place text files).any (fun file => f file.1) =
      (files.any (fun file => f file.1) || f place) := by
  induction files with
  | nil => exact Bool.or_comm _ _
  | cons file rest ih =>
    obtain ⟨key, old⟩ := file
    rw [putFile]
    split
    · rename_i same
      rw [List.any_cons, List.any_cons, same]
      cases f place <;> simp
    · rw [List.any_cons, List.any_cons, ih, Bool.or_assoc]

section

variable {tree other : Tree} (agrees : tree.Agrees other)

include agrees

theorem Agrees.locate (parts : List Part) : other.locate parts = tree.locate parts := by
  have step : other.step = tree.step := by
    funext place part
    unfold step
    rw [agrees.file, agrees.directory]
  unfold Tree.locate
  rw [step]

theorem Agrees.read (path : FilePath) : other.read path = tree.read path := by
  unfold Tree.read
  simp only [agrees.locate, agrees.file, agrees.directory]

theorem Agrees.has (path : FilePath) : other.has path = tree.has path := by
  unfold Tree.has
  simp only [agrees.locate, agrees.file, agrees.directory]

theorem Agrees.leadsToDirectory (parts : List Part) :
    other.leadsToDirectory parts = tree.leadsToDirectory parts := by
  unfold Tree.leadsToDirectory
  simp only [agrees.locate, agrees.directory]

theorem Agrees.makeDirectory (parts : List Part) :
    AgreesOn (tree.makeDirectory parts) (other.makeDirectory parts) := by
  unfold Tree.makeDirectory
  rw [agrees.locate]
  cases tree.locate parts with
  | error fault => exact .error fault
  | ok place =>
    have occupied : other.occupied place = tree.occupied place := by
      unfold Tree.occupied
      rw [agrees.file, agrees.directory]
    change AgreesOn (if tree.occupied place then _ else _) (if other.occupied place then _ else _)
    rw [occupied]
    split
    · exact .error _
    · refine .ok ⟨agrees.file, fun asked => ?_⟩
      have before := agrees.directory asked
      unfold isDirectory at before ⊢
      simp only [List.any_append, Bool.or_assoc, Bool.or_left_comm _ (List.any [place] _)] at before ⊢
      rw [before]

theorem Agrees.makeDirectories (parts : List Part) :
    (other.makeDirectories parts).2 = (tree.makeDirectories parts).2 ∧
      (tree.makeDirectories parts).1.Agrees (other.makeDirectories parts).1 := by
  induction parts with
  | nil => exact ⟨rfl, agrees⟩
  | cons part earlier ih =>
    have here := agrees.makeDirectory (part :: earlier).reverse
    have leads := agrees.leadsToDirectory (part :: earlier).reverse
    unfold Tree.makeDirectories
    dsimp only
    generalize tree.makeDirectory _ = made, other.makeDirectory _ = again at here ⊢
    cases here with
    | ok made => exact ⟨rfl, made⟩
    | error fault =>
      cases fault with
      | missing =>
        generalize tree.makeDirectories earlier = grown, other.makeDirectories earlier = again at ih ⊢
        obtain ⟨grown, _⟩ := grown
        obtain ⟨again, fault?⟩ := again
        obtain ⟨rfl, grownAgrees⟩ := ih
        have inside := grownAgrees.makeDirectory (part :: earlier).reverse
        have leads := grownAgrees.leadsToDirectory (part :: earlier).reverse
        cases fault? with
        | some fault => exact ⟨rfl, grownAgrees⟩
        | none =>
          dsimp only at grownAgrees inside leads ⊢
          rw [leads]
          generalize grown.makeDirectory _ = made, again.makeDirectory _ = other at inside ⊢
          cases inside with
          | ok made => exact ⟨rfl, made⟩
          | error fault => exact ⟨rfl, grownAgrees⟩
      | notDirectory | isDirectory | alreadyExists =>
        dsimp only
        rw [leads]
        exact ⟨rfl, agrees⟩

theorem Agrees.writeFile (parts : List Part) (text : String) :
    AgreesOn (tree.writeFile parts text) (other.writeFile parts text) := by
  unfold Tree.writeFile
  rw [agrees.locate]
  cases tree.locate parts with
  | error fault => exact .error fault
  | ok place =>
    change AgreesOn (if tree.isDirectory place then _ else _) (if other.isDirectory place then _ else _)
    rw [agrees.directory]
    split
    · exact .error _
    · refine .ok ⟨fun asked => ?_, fun asked => ?_⟩
      · have before := agrees.file asked
        unfold file? at before ⊢
        dsimp only
        rw [lookup_putFile, lookup_putFile, before]
      · have before := agrees.directory asked
        unfold isDirectory at before ⊢
        dsimp only
        rw [any_putFile (isAbove asked), any_putFile (isAbove asked), ← Bool.or_assoc, ← Bool.or_assoc,
          before]

/-- Trees that agree are written to alike. -/
theorem Agrees.write (path : FilePath) (text : String) :
    (other.write path text).2 = (tree.write path text).2 ∧
      (tree.write path text).1.Agrees (other.write path text).1 := by
  have around := agrees.makeDirectories path.directoryParts.reverse
  unfold Tree.write
  generalize tree.makeDirectories _ = grown, other.makeDirectories _ = again at around ⊢
  obtain ⟨grown, _⟩ := grown
  obtain ⟨again, fault?⟩ := again
  obtain ⟨rfl, grownAgrees⟩ := around
  cases fault? with
  | some fault => exact ⟨rfl, grownAgrees⟩
  | none =>
    have written := grownAgrees.writeFile path.parts text
    dsimp only at grownAgrees written ⊢
    generalize grown.writeFile _ _ = made, again.writeFile _ _ = other at written ⊢
    cases written with
    | ok made => exact ⟨rfl, made⟩
    | error fault => exact ⟨rfl, grownAgrees⟩

end

/-- What can be read is a file, at a path that can be that of a file. -/
theorem exists_of_read {tree : Tree} {path : FilePath} {text : String}
    (readable : tree.read path = .ok text) :
    ∃ place, tree.locate path.parts = .ok place ∧ tree.isDirectory place = false ∧
      tree.file? place = some text ∧ path.wantsDirectory = false := by
  unfold Tree.read at readable
  obtain ⟨place, located, readable⟩ := exists_of_bind_ok readable
  refine ⟨place, located, ?_⟩
  dsimp only at readable
  by_cases directory : tree.isDirectory place = true
  · rw [if_pos directory] at readable
    cases readable
  · rw [if_neg directory] at readable
    split at readable
    · rename_i found there
      split at readable
      · cases readable
      · rename_i file
        cases readable
        exact ⟨Bool.eq_false_iff.2 directory, there, Bool.eq_false_iff.2 file⟩
    · cases readable

/-- The same files and directories are listed, perhaps in another order. -/
structure Reorders (tree other : Tree) : Prop where
  files : other.files.Perm tree.files
  directories : other.directories.Perm tree.directories

/-- Files stand at different places, and all names on the way to them are names. -/
structure Proper (tree : Tree) : Prop where
  distinct : (tree.files.map (·.1)).Nodup
  named : ∀ file ∈ tree.files, file.1 ≠ [] ∧ ∀ name ∈ file.1, IsName name

theorem lookup_eq_some_iff {files : List (Location × String)} (distinct : (files.map (·.1)).Nodup)
    {place : Location} {text : String} :
    List.lookup place files = some text ↔ (place, text) ∈ files := by
  induction files with
  | nil => simp
  | cons file rest ih =>
    obtain ⟨key, old⟩ := file
    obtain ⟨other, distinct⟩ := List.nodup_cons.1 distinct
    by_cases same : place = key
    · subst same
      have absent : (place, text) ∉ rest := fun member =>
        other (List.mem_map.2 ⟨(place, text), member, rfl⟩)
      simp [absent, eq_comm]
    · simp [List.lookup_cons, beq_eq_false_iff_ne.2 same, same, ih distinct]

/-- The order in which a tree lists its files does not matter. -/
theorem Reorders.agrees {tree other : Tree} (reorders : tree.Reorders other)
    (distinct : (tree.files.map (·.1)).Nodup) : tree.Agrees other where
  file place := by
    have otherDistinct := (reorders.files.map (·.1)).nodup_iff.2 distinct
    apply Option.ext
    intro text
    exact (lookup_eq_some_iff otherDistinct).trans
      (reorders.files.mem_iff.trans (lookup_eq_some_iff distinct).symm)
  directory place := by
    unfold isDirectory
    rw [reorders.files.any_eq, reorders.directories.any_eq]

theorem Reorders.proper {tree other : Tree} (reorders : tree.Reorders other)
    (proper : tree.Proper) : other.Proper where
  distinct := (reorders.files.map (·.1)).nodup_iff.2 proper.distinct
  named file listed := proper.named file (reorders.files.mem_iff.1 listed)

/-- A directory is made where nothing is. -/
theorem exists_of_makeDirectory {tree made : Tree} {parts : List Part}
    (done : tree.makeDirectory parts = .ok made) :
    ∃ place, tree.locate parts = .ok place ∧ tree.occupied place = false ∧
      made = { tree with directories := tree.directories ++ [place] } := by
  unfold makeDirectory at done
  obtain ⟨place, located, done⟩ := exists_of_bind_ok done
  refine ⟨place, located, ?_⟩
  split at done
  · cases done
  · rename_i free
    cases done
    exact ⟨Bool.eq_false_iff.2 free, rfl⟩

private theorem files_makeDirectory {tree made : Tree} {parts : List Part}
    (done : tree.makeDirectory parts = .ok made) : made.files = tree.files := by
  obtain ⟨_, _, _, rfl⟩ := exists_of_makeDirectory done
  rfl

/-- Making directories leaves all files as they are. -/
theorem files_makeDirectories (tree : Tree) (parts : List Part) :
    (tree.makeDirectories parts).1.files = tree.files := by
  induction parts with
  | nil => rfl
  | cons part earlier ih =>
    unfold makeDirectories
    dsimp only
    split
    · rename_i made done
      exact files_makeDirectory done
    · split
      · rename_i grown fault around
        rw [around] at ih
        exact ih
      · rename_i grown around
        rw [around] at ih
        split
        · rename_i made done
          exact (files_makeDirectory done).trans ih
        · exact ih
    · rfl

/-- A file is written where no directory is. -/
theorem exists_of_writeFile {tree written : Tree} {parts : List Part} {text : String}
    (done : tree.writeFile parts text = .ok written) :
    ∃ place, tree.locate parts = .ok place ∧ tree.isDirectory place = false ∧
      written = { tree with files := putFile place text tree.files } := by
  unfold writeFile at done
  obtain ⟨place, located, done⟩ := exists_of_bind_ok done
  refine ⟨place, located, ?_⟩
  split at done
  · cases done
  · rename_i free
    cases done
    exact ⟨Bool.eq_false_iff.2 free, rfl⟩

/-- Writing makes directories, and then fails or writes the file. -/
theorem write_steps (tree : Tree) (path : FilePath) (text : String) :
    ((tree.write path text).2 ≠ none ∧
        (tree.write path text).1 = (tree.makeDirectories path.directoryParts.reverse).1) ∨
      ((tree.write path text).2 = none ∧
        (tree.makeDirectories path.directoryParts.reverse).1.writeFile path.parts text =
          .ok (tree.write path text).1) := by
  unfold write
  generalize tree.makeDirectories _ = around
  obtain ⟨grown, fault?⟩ := around
  cases fault? with
  | some fault => exact .inl ⟨nofun, rfl⟩
  | none =>
    dsimp only
    cases grown.writeFile path.parts text with
    | error fault => exact .inl ⟨nofun, rfl⟩
    | ok written => exact .inr ⟨rfl, rfl⟩

/-- Writing fails and leaves all files as they are, or gives the file that the path leads to its
text. -/
theorem write_cases (tree : Tree) (path : FilePath) (text : String) :
    ((tree.write path text).2 ≠ none ∧
        ∀ place, (tree.write path text).1.file? place = tree.file? place) ∨
      ((tree.write path text).2 = none ∧ ∀ place, (tree.write path text).1.file? place =
        if place = Location.ofPath path then some text else tree.file? place) := by
  have kept (place : Location) :
      (tree.makeDirectories path.directoryParts.reverse).1.file? place = tree.file? place :=
    congrArg (List.lookup place) (files_makeDirectories tree _)
  rcases write_steps tree path text with ⟨failed, around⟩ | ⟨done, written⟩
  · refine .inl ⟨failed, fun place => ?_⟩
    rw [around]
    exact kept place
  · refine .inr ⟨done, fun asked => ?_⟩
    obtain ⟨place, located, _, put⟩ := exists_of_writeFile written
    have here : place = Location.ofPath path := eq_follow_of_locate located
    rw [put, ← here, ← kept]
    exact lookup_putFile place asked text _

end TypedSvelte.Tree
