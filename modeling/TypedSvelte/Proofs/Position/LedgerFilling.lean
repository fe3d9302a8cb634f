import TypedSvelte.Proofs.Outcome
import TypedSvelte.Proofs.Position.LedgerOrder

/-!
# Filling a ledger

`insert` refuses a text only at a position that is taken. Texts for positions that are free and
differ from each other are all recorded, and nothing else is (`exists_insertAll`).
-/
namespace TypedSvelte.Ledger

theorem isEmpty_iff {ledger : Ledger} : ledger.isEmpty = true ↔ ledger.entries = [] :=
  List.isEmpty_iff

def insertAll (entries : List Entry) (ledger : Ledger) : Except LedgerError Ledger :=
  entries.foldlM (fun ledger entry => ledger.insert entry.position entry.text) ledger

theorem insertAll_cons (entry : Entry) (rest : List Entry) (ledger : Ledger) :
    insertAll (entry :: rest) ledger =
      ledger.insert entry.position entry.text >>= insertAll rest := rfl

@[simp]
theorem insertAll_singleton (entry : Entry) (ledger : Ledger) :
    insertAll [entry] ledger = ledger.insert entry.position entry.text :=
  bind_pure _

/-- A text for a free position is put between the entries. -/
theorem exists_place {position : Nat} {entries : List Entry}
    (free : ∀ old ∈ entries, old.position ≠ position) (text : String) :
    ∃ before after, entries = before ++ after ∧
      place position text entries = .ok (before ++ ⟨position, text⟩ :: after) := by
  induction entries with
  | nil => exact ⟨[], [], rfl, rfl⟩
  | cons entry rest ih =>
    obtain ⟨differs, restFree⟩ := List.forall_mem_cons.1 free
    rw [place]
    split
    · exact ⟨[], _, rfl, rfl⟩
    · rw [if_neg (Ne.symm differs)]
      obtain ⟨before, after, rfl, placed⟩ := ih restFree
      rw [placed]
      exact ⟨entry :: before, after, rfl, rfl⟩

theorem exists_insert {ledger : Ledger} (increasing : Increasing ledger.entries) {entry : Entry}
    (free : ∀ old ∈ ledger.entries, old.position ≠ entry.position) (filled : entry.text ≠ "") :
    ∃ next before after, ledger.insert entry.position entry.text = .ok next ∧
      ledger.entries = before ++ after ∧ next.entries = before ++ entry :: after ∧
      Increasing next.entries := by
  obtain ⟨before, after, split, placed⟩ := exists_place free entry.text
  have unempty : entry.text.isEmpty = false := by simpa using filled
  refine ⟨⟨before ++ entry :: after⟩, before, after, ?_, split, rfl,
    increasing_place placed increasing⟩
  rw [insert, unempty, placed]
  rfl

def Distinct (entries : List Entry) : Prop :=
  entries.Pairwise fun entry other => entry.position ≠ other.position

theorem Increasing.distinct {entries : List Entry} (increasing : Increasing entries) :
    Distinct entries :=
  increasing.imp Nat.ne_of_lt

/-- Texts for free positions that differ from each other are all recorded. -/
theorem exists_insertAll {added : List Entry} (distinct : Distinct added)
    (filled : ∀ e ∈ added, e.text ≠ "") {ledger : Ledger} (increasing : Increasing ledger.entries)
    (free : ∀ e ∈ added, ∀ old ∈ ledger.entries, old.position ≠ e.position) :
    ∃ next, insertAll added ledger = .ok next ∧ next.entries.Perm (added ++ ledger.entries) ∧
      Increasing next.entries := by
  induction added generalizing ledger with
  | nil => exact ⟨ledger, rfl, .refl _, increasing⟩
  | cons entry rest ih =>
    obtain ⟨differs, restDistinct⟩ := List.pairwise_cons.1 distinct
    obtain ⟨here, restFilled⟩ := List.forall_mem_cons.1 filled
    obtain ⟨hereFree, restFree⟩ := List.forall_mem_cons.1 free
    obtain ⟨next, before, after, recorded, split, made, nextIncreasing⟩ :=
      exists_insert increasing hereFree here
    have same : next.entries.Perm (entry :: ledger.entries) := by
      rw [made, split]
      exact List.perm_middle
    have nextFree : ∀ e ∈ rest, ∀ old ∈ next.entries, old.position ≠ e.position := by
      intro e member old recordedOld
      rcases List.mem_cons.1 (same.mem_iff.1 recordedOld) with rfl | older
      · exact differs e member
      · exact restFree e member old older
    obtain ⟨last, restRecorded, lastSame, lastIncreasing⟩ :=
      ih restDistinct restFilled nextIncreasing nextFree
    refine ⟨last, ?_, ?_, lastIncreasing⟩
    · rw [insertAll, List.foldlM_cons, recorded]
      exact restRecorded
    · exact (lastSame.trans (same.append_left rest)).trans List.perm_middle

/-- A ledger that was empty holds the texts as they are. -/
theorem insertAll_empty {added : List Entry} (ordered : Increasing added)
    (filled : ∀ e ∈ added, e.text ≠ "") : insertAll added empty = .ok ⟨added⟩ := by
  have start : Increasing empty.entries := .nil
  obtain ⟨⟨entries⟩, recorded, same, increasing⟩ :=
    exists_insertAll ordered.distinct filled start nofun
  have unchanged : entries = added := increasing.eq_of_perm ordered (by simpa [empty] using same)
  rw [recorded, unchanged]

/-- Recording a text keeps the order and adds nothing else. -/
theorem entries_of_insert {ledger next : Ledger} {position : Nat} {text : String}
    (recorded : ledger.insert position text = .ok next) (increasing : Increasing ledger.entries) :
    Increasing next.entries ∧ ∀ e ∈ next.entries, e = ⟨position, text⟩ ∨ e ∈ ledger.entries := by
  unfold insert at recorded
  split at recorded
  · cases recorded
    exact ⟨increasing, fun _ member => .inr member⟩
  · cases made : place position text ledger.entries with
    | error refused =>
      rw [made] at recorded
      cases recorded
    | ok placed =>
      rw [made] at recorded
      cases recorded
      exact ⟨increasing_place made increasing, fun _ member => mem_of_place made member⟩

theorem entries_of_insertAll {added : List Entry} {ledger next : Ledger}
    (recorded : insertAll added ledger = .ok next) (increasing : Increasing ledger.entries) :
    Increasing next.entries ∧ ∀ e ∈ next.entries, e ∈ added ∨ e ∈ ledger.entries := by
  refine of_foldlM_ok (P := fun made => Increasing made.entries ∧
    ∀ e ∈ made.entries, e ∈ added ∨ e ∈ ledger.entries) recorded
    ⟨increasing, fun _ member => .inr member⟩ ?_
  rintro made ⟨ordered, known⟩ entry member next one
  obtain ⟨nextOrdered, only⟩ := entries_of_insert one ordered
  refine ⟨nextOrdered, fun e inNext => ?_⟩
  rcases only e inNext with rfl | before
  · exact .inl member
  · exact known e before

private theorem place_fails (position : Nat) (text : String) (entries : List Entry) :
    FailsWith (· = .duplicatePosition position) (place position text entries) := by
  induction entries with
  | nil => exact failsWith_ok _
  | cons entry rest ih =>
    unfold place
    split
    · exact failsWith_ok _
    · split
      · exact failsWith_error rfl
      · exact ih.map _

private theorem insert_fails (ledger : Ledger) (position : Nat) (text : String) :
    FailsWith (· = .duplicatePosition position) (ledger.insert position text) := by
  unfold insert
  split
  · exact failsWith_ok _
  · exact (place_fails position text _).map _

/-- Recording texts is refused at the position of one of them. -/
theorem insertAll_fails (added : List Entry) (ledger : Ledger) :
    FailsWith (fun error => ∃ e ∈ added, error = .duplicatePosition e.position)
      (insertAll added ledger) :=
  failsWith_foldlM
    (fun ledger e member error refused => ⟨e, member, insert_fails ledger _ _ error refused⟩) _

end TypedSvelte.Ledger
