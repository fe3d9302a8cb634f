import Mathlib.Algebra.BigOperators.Group.List.Basic
import Mathlib.Algebra.GroupWithZero.Nat
import Mathlib.Data.List.Induction
import TypedSvelte.Proofs.Position.LedgerFilling
import TypedSvelte.Proofs.Position.LedgerTranslation

/-!
# What calls record

A record tells what has been inserted up to it, so a text that is inserted changes all later records.
`calls_recorded` says what each call does to the records of a ledger, and what the records say of one
another after any number of calls. In which order the calls come does not matter
(`insertAll_reordered`). A ledger that keeps the records and patches them is shown to hold the same
ones in `StoredLedger.records_ofCalls`.
-/
namespace TypedSvelte

def Insertion.shifted (length : Nat) (r : Insertion) : Insertion :=
  { r with generated := r.generated + length, total := r.total + length }

namespace Ledger

def lastTotal (records : List Insertion) : Nat := (records.getLast?.map (·.total)).getD 0

/-- The records are in order, and each one counts its own text and those before it. -/
structure Consistent (records : List Insertion) : Prop where
  increasing : records.Pairwise fun earlier later => earlier.position < later.position
  filled : ∀ r ∈ records, r.text ≠ "" ∧ r.length = r.text.utf8ByteSize
  counted : ∀ before r after, records = before ++ r :: after →
    r.total = ((before ++ [r]).map (·.length)).sum ∧ r.generated = r.position + lastTotal before

def Taken (ledger : Ledger) (position : Nat) : Prop :=
  position ∈ ledger.insertions.map (·.position)

theorem placed_append (total : Nat) (before after : List Entry) :
    placed total (before ++ after) = placed total before ++ placed (total + lengths before) after := by
  induction before generalizing total with
  | nil => rfl
  | cons entry rest ih =>
    rw [List.cons_append, placed_cons, placed_cons, ih, lengths_cons, Nat.add_assoc, List.cons_append]

private theorem placed_shifted (total length : Nat) (entries : List Entry) :
    placed (total + length) entries = (placed total entries).map (·.shifted length) := by
  induction entries generalizing total with
  | nil => rfl
  | cons entry rest ih =>
    have here : record (total + length) entry = (record total entry).shifted length := by
      simp only [record, Insertion.shifted, Insertion.mk.injEq, true_and]
      omega
    rw [placed_cons, placed_cons, List.map_cons, here, ← ih, Nat.add_right_comm]

theorem lastTotal_placed_zero (entries : List Entry) : lastTotal (placed 0 entries) = lengths entries := by
  have last := lastTotal_placed 0 entries
  rwa [Nat.zero_add] at last

private theorem sum_length_placed (total : Nat) (entries : List Entry) :
    ((placed total entries).map (·.length)).sum = lengths entries := by
  induction entries generalizing total with
  | nil => rfl
  | cons entry rest ih =>
    rw [placed_cons, List.map_cons, List.sum_cons, ih]
    rfl

/-- A record is that of an entry behind the entries of the records before it. -/
theorem exists_of_placed {total : Nat} {entries : List Entry} {before after : List Insertion}
    {r : Insertion} (split : placed total entries = before ++ r :: after) :
    ∃ earlier entry later, entries = earlier ++ entry :: later ∧ before = placed total earlier ∧
      r = record (total + lengths earlier) entry := by
  induction entries generalizing total before with
  | nil => cases before <;> cases split
  | cons entry rest ih =>
    rw [placed_cons] at split
    cases before with
    | nil =>
      obtain ⟨rfl, _⟩ := List.cons.inj split
      exact ⟨[], entry, rest, rfl, rfl, rfl⟩
    | cons first more =>
      obtain ⟨rfl, tail⟩ := List.cons.inj split
      obtain ⟨earlier, found, later, rfl, rfl, same⟩ := ih tail
      refine ⟨entry :: earlier, found, later, rfl, rfl, ?_⟩
      rw [same, lengths_cons, Nat.add_assoc]

private theorem consistent_placed {entries : List Entry} (increasing : Increasing entries)
    (filled : ∀ e ∈ entries, e.text ≠ "") : Consistent (placed 0 entries) where
  increasing := positions_increase increasing 0
  filled r member := by
    obtain ⟨before, after, split⟩ := List.append_of_mem member
    obtain ⟨earlier, entry, later, rfl, _, rfl⟩ := exists_of_placed split
    exact ⟨filled entry (by simp), rfl⟩
  counted before r after split := by
    obtain ⟨earlier, entry, later, _, rfl, rfl⟩ := exists_of_placed split
    rw [List.map_append, List.sum_append, sum_length_placed, lastTotal_placed_zero, Nat.zero_add]
    exact ⟨rfl, rfl⟩

private theorem lengths_append (before after : List Entry) :
    lengths (before ++ after) = lengths before + lengths after := by
  rw [← sum_length_placed 0, placed_append, List.map_append, List.sum_append, sum_length_placed,
    sum_length_placed]

private theorem total_le_lengths {entries : List Entry} {r : Insertion} (member : r ∈ placed 0 entries) :
    r.total ≤ lengths entries := by
  obtain ⟨before, after, split⟩ := List.append_of_mem member
  obtain ⟨earlier, entry, later, rfl, _, rfl⟩ := exists_of_placed split
  change 0 + lengths earlier + entry.text.utf8ByteSize ≤ _
  rw [lengths_append, lengths_cons]
  omega

/-- The records of entries between which one more is put. -/
theorem placed_between (before after : List Entry) (entry : Entry) :
    placed 0 (before ++ entry :: after) =
      placed 0 before ++ record (lengths before) entry ::
        (placed (lengths before) after).map (·.shifted entry.text.utf8ByteSize) := by
  rw [placed_append, placed_cons, placed_shifted, Nat.zero_add]

variable {ledger : Ledger} {position : Nat} {text : String}

theorem taken_iff : ledger.Taken position ↔ ∃ e ∈ ledger.entries, e.position = position := by
  rw [Taken, insertions, positions_placed, List.mem_map]

private theorem insert_empty (ledger : Ledger) (position : Nat) : ledger.insert position "" = .ok ledger := rfl

private theorem place_taken {entries : List Entry} (increasing : Increasing entries)
    (taken : ∃ e ∈ entries, e.position = position) (text : String) :
    place position text entries = .error (.duplicatePosition position) := by
  induction entries with
  | nil =>
    obtain ⟨e, member, _⟩ := taken
    cases member
  | cons entry rest ih =>
    obtain ⟨above, restIncreasing⟩ := increasing_cons.1 increasing
    obtain ⟨e, member, rfl⟩ := taken
    rw [place]
    rcases List.mem_cons.1 member with rfl | inRest
    · rw [if_neg (Nat.lt_irrefl _), if_pos rfl]
    · have later := above e inRest
      rw [if_neg (by omega), if_neg (by omega), ih restIncreasing ⟨e, inRest, rfl⟩]
      rfl

theorem insert_taken (increasing : Increasing ledger.entries) (filled : text ≠ "")
    (taken : ledger.Taken position) :
    ledger.insert position text = .error (.duplicatePosition position) := by
  have unempty : text.isEmpty = false := by simpa using filled
  rw [insert, unempty, place_taken increasing (taken_iff.1 taken)]
  rfl

/-- A text for a free position is put between the entries. -/
theorem insert_free (increasing : Increasing ledger.entries) (filled : text ≠ "")
    (free : ¬ ledger.Taken position) :
    ∃ next before after, ledger.insert position text = .ok next ∧
      ledger.entries = before ++ after ∧ next.entries = before ++ ⟨position, text⟩ :: after := by
  have others : ∀ old ∈ ledger.entries, old.position ≠ position :=
    fun old member same => free (taken_iff.2 ⟨old, member, same⟩)
  obtain ⟨next, before, after, recorded, split, made, _⟩ :=
    @exists_insert ledger increasing ⟨position, text⟩ others filled
  exact ⟨next, before, after, recorded, split, made⟩

theorem afterCall_of_ok {next : Ledger} (recorded : ledger.insert position text = .ok next) :
    ledger.afterCall (position, text) = next := by
  unfold afterCall
  rw [recorded]

private theorem afterCall_of_error {error : LedgerError}
    (refused : ledger.insert position text = .error error) :
    ledger.afterCall (position, text) = ledger := by
  unfold afterCall
  rw [refused]

theorem ofCalls_concat (calls : List (Nat × String)) (call : Nat × String) :
    ofCalls (calls ++ [call]) = (ofCalls calls).afterCall call := by
  rw [ofCalls, List.foldl_concat]
  rfl

/-- Only texts that are not empty are recorded, and no more bytes than the calls give. -/
theorem entries_ofCalls (calls : List (Nat × String)) :
    (∀ e ∈ (ofCalls calls).entries, e.text ≠ "") ∧
      lengths (ofCalls calls).entries ≤ (calls.map (·.2.utf8ByteSize)).sum := by
  induction calls using List.reverseRecOn with
  | nil => exact ⟨nofun, Nat.le_refl _⟩
  | append_singleton calls call ih =>
    obtain ⟨position, text⟩ := call
    obtain ⟨filled, bounded⟩ := ih
    have increasing := increasing_ofCalls calls
    rw [ofCalls_concat, List.map_append, List.sum_append, List.map_singleton, List.sum_singleton]
    by_cases given : text = ""
    · rw [given, afterCall_of_ok (insert_empty _ position)]
      exact ⟨filled, Nat.le_add_right_of_le bounded⟩
    · by_cases taken : (ofCalls calls).Taken position
      · rw [afterCall_of_error (insert_taken increasing given taken)]
        exact ⟨filled, Nat.le_add_right_of_le bounded⟩
      · obtain ⟨next, before, after, recorded, split, made⟩ := insert_free increasing given taken
        rw [afterCall_of_ok recorded, made]
        rw [split] at filled bounded
        rw [lengths_append] at bounded
        constructor
        · intro e member
          rcases List.mem_append.1 member with earlier | later
          · exact filled e (List.mem_append_left after earlier)
          · rcases List.mem_cons.1 later with rfl | later
            · exact given
            · exact filled e (List.mem_append_right before later)
        · rw [lengths_append, lengths_cons]
          dsimp only
          omega

/-- After any number of calls the records are consistent, and no total exceeds the bytes that the
calls gave. One more call with an empty text or for a taken position leaves them as they are, and any
other call adds one record and shifts the later ones. -/
theorem calls_recorded (calls : List (Nat × String)) :
    Consistent (ofCalls calls).insertions ∧
      (∀ r ∈ (ofCalls calls).insertions, r.total ≤ (calls.map (·.2.utf8ByteSize)).sum) ∧
      ∀ position text,
        (text = "" →
          (ofCalls calls).insert position text = .ok (ofCalls calls) ∧
            ofCalls (calls ++ [(position, text)]) = ofCalls calls) ∧
        (text ≠ "" → (ofCalls calls).Taken position →
          (ofCalls calls).insert position text = .error (.duplicatePosition position) ∧
            ofCalls (calls ++ [(position, text)]) = ofCalls calls) ∧
        (text ≠ "" → ¬ (ofCalls calls).Taken position →
          (ofCalls calls).insert position text = .ok (ofCalls (calls ++ [(position, text)])) ∧
            ∃ before after, (ofCalls calls).insertions = before ++ after ∧
              (ofCalls (calls ++ [(position, text)])).insertions = before ++
                ⟨position, position + lastTotal before, text.utf8ByteSize, text,
                  lastTotal before + text.utf8ByteSize⟩ ::
                after.map (·.shifted text.utf8ByteSize)) := by
  have increasing := increasing_ofCalls calls
  obtain ⟨filled, bounded⟩ := entries_ofCalls calls
  refine ⟨consistent_placed increasing filled,
    fun r member => Nat.le_trans (total_le_lengths member) bounded, fun position text => ?_⟩
  rw [ofCalls_concat]
  refine ⟨?_, fun given taken => ?_, fun given free => ?_⟩
  · rintro rfl
    exact ⟨rfl, afterCall_of_ok (insert_empty _ position)⟩
  · have refused := insert_taken increasing given taken
    exact ⟨refused, afterCall_of_error refused⟩
  · obtain ⟨next, before, after, recorded, split, made⟩ := insert_free increasing given free
    rw [afterCall_of_ok recorded]
    refine ⟨recorded, placed 0 before, placed (lengths before) after, ?_, ?_⟩
    · rw [insertions, split, placed_append, Nat.zero_add]
    · rw [insertions, made, placed_between, lastTotal_placed_zero]
      rfl

def recordable (entries : List Entry) : List Entry := entries.filter fun e => !e.text.isEmpty

def sorted (entries : List Entry) : List Entry :=
  entries.mergeSort fun a b => decide (a.position ≤ b.position)

private theorem mem_recordable {entries : List Entry} {e : Entry} (member : e ∈ recordable entries) :
    e.text ≠ "" := by
  have filled := List.of_mem_filter member
  simpa using filled

/-- Empty texts may as well not be given. -/
theorem insertAll_recordable (entries : List Entry) (ledger : Ledger) :
    insertAll (recordable entries) ledger = insertAll entries ledger := by
  induction entries generalizing ledger with
  | nil => rfl
  | cons entry rest ih =>
    by_cases given : entry.text = ""
    · have skipped : recordable (entry :: rest) = recordable rest :=
        List.filter_cons_of_neg (by simp [given])
      rw [skipped, ih, insertAll_cons, given, insert_empty]
      rfl
    · have kept : recordable (entry :: rest) = entry :: recordable rest :=
        List.filter_cons_of_pos (by simpa using given)
      rw [kept, insertAll_cons, insertAll_cons, funext ih]

private theorem increasing_sorted {entries : List Entry} (distinct : Distinct entries) :
    Increasing (sorted entries) := by
  have perm : (sorted entries).Perm entries := List.mergeSort_perm _ _
  have ordered : (sorted entries).Pairwise fun a b => decide (a.position ≤ b.position) = true :=
    List.pairwise_mergeSort (by simp; omega) (by simp; omega) entries
  have apart : Distinct (sorted entries) :=
    (perm.pairwise_iff fun differs => Ne.symm differs).2 distinct
  refine (ordered.and apart).imp ?_
  rintro a b ⟨le, differs⟩
  exact Nat.lt_of_le_of_ne (of_decide_eq_true le) differs

private theorem insertAll_sorted {entries : List Entry} (distinct : Distinct (recordable entries)) :
    insertAll entries empty = .ok ⟨sorted (recordable entries)⟩ := by
  have start : Increasing empty.entries := .nil
  obtain ⟨⟨made⟩, recorded, same, increasing⟩ :=
    exists_insertAll distinct (fun _ => mem_recordable) start nofun
  rw [empty, List.append_nil] at same
  have unchanged : made = sorted (recordable entries) :=
    increasing.eq_of_perm (increasing_sorted distinct) (same.trans (List.mergeSort_perm _ _).symm)
  rw [← insertAll_recordable, recorded, unchanged]

/-- What is inserted up to an offset. -/
theorem forward_eq_lengths {entries : List Entry} (increasing : Increasing entries)
    (total offset : Nat) :
    forward total offset entries =
      offset + total + lengths (entries.filter (·.position ≤ offset)) := by
  induction entries generalizing total with
  | nil => rfl
  | cons entry rest ih =>
    obtain ⟨above, restIncreasing⟩ := increasing_cons.1 increasing
    rw [forward]
    by_cases before : offset < entry.position
    · have none : (entry :: rest).filter (·.position ≤ offset) = [] := by
        refine List.filter_eq_nil_iff.2 (List.forall_mem_cons.2 ⟨by simpa using before, ?_⟩)
        intro later member
        have behind := above later member
        simp only [decide_eq_true_eq]
        omega
      rw [if_pos before, none]
      rfl
    · rw [if_neg before, ih restIncreasing,
        List.filter_cons_of_pos (by simpa using Nat.not_lt.1 before), lengths_cons]
      omega

private theorem lengths_perm {entries other : List Entry} (perm : entries.Perm other) :
    lengths entries = lengths other := by
  induction perm with
  | nil => rfl
  | cons entry _ ih => rw [lengths_cons, lengths_cons, ih]
  | swap entry other rest =>
    simp only [lengths_cons]
    omega
  | trans _ _ first second => exact first.trans second

/-- Texts for different positions make one ledger, in whatever order they are recorded. It holds them
in order of position, with the totals counted in one pass, and so it moves each offset by the texts at
or before it. -/
theorem insertAll_reordered {entries other : List Entry} (distinct : Distinct (recordable entries))
    (reordered : other.Perm entries) :
    ∃ ledger, insertAll entries empty = .ok ledger ∧ insertAll other empty = .ok ledger ∧
      ledger.insertions = placed 0 (sorted (recordable entries)) ∧
      ∀ offset, ledger.toGenerated offset =
        offset + lengths ((recordable entries).filter (·.position ≤ offset)) := by
  have perm : (recordable other).Perm (recordable entries) := reordered.filter _
  have otherDistinct : Distinct (recordable other) :=
    (perm.pairwise_iff fun differs => Ne.symm differs).2 distinct
  have inOrder : (sorted (recordable entries)).Perm (recordable entries) := List.mergeSort_perm _ _
  have same : sorted (recordable other) = sorted (recordable entries) :=
    (increasing_sorted otherDistinct).eq_of_perm (increasing_sorted distinct)
      ((List.mergeSort_perm _ _).trans (perm.trans inOrder.symm))
  refine ⟨⟨sorted (recordable entries)⟩, insertAll_sorted distinct,
    same ▸ insertAll_sorted otherDistinct, rfl, fun offset => ?_⟩
  rw [toGenerated_eq_forward, forward_eq_lengths (increasing_sorted distinct),
    lengths_perm (inOrder.filter _)]
  rfl

/-- Three texts and an empty one, the empty one for a position that is taken. -/
theorem insertAll_reordered_shuffled :
    Distinct (recordable [⟨2, "ab"⟩, ⟨5, "c"⟩, ⟨5, ""⟩, ⟨9, "é"⟩]) ∧
      [⟨9, "é"⟩, ⟨5, ""⟩, ⟨2, "ab"⟩, ⟨5, "c"⟩].Perm
        ([⟨2, "ab"⟩, ⟨5, "c"⟩, ⟨5, ""⟩, ⟨9, "é"⟩] : List Entry) ∧
      ∃ ledger, insertAll [⟨2, "ab"⟩, ⟨5, "c"⟩, ⟨5, ""⟩, ⟨9, "é"⟩] empty = .ok ledger ∧
        insertAll [⟨9, "é"⟩, ⟨5, ""⟩, ⟨2, "ab"⟩, ⟨5, "c"⟩] empty = .ok ledger ∧
        ledger.insertions =
          placed 0 (sorted (recordable [⟨2, "ab"⟩, ⟨5, "c"⟩, ⟨5, ""⟩, ⟨9, "é"⟩])) ∧
        ∀ offset, ledger.toGenerated offset = offset + lengths
          ((recordable [⟨2, "ab"⟩, ⟨5, "c"⟩, ⟨5, ""⟩, ⟨9, "é"⟩]).filter (·.position ≤ offset)) := by
  have distinct : Distinct (recordable [⟨2, "ab"⟩, ⟨5, "c"⟩, ⟨5, ""⟩, ⟨9, "é"⟩]) := by
    unfold Distinct
    decide
  have reordered : [⟨9, "é"⟩, ⟨5, ""⟩, ⟨2, "ab"⟩, ⟨5, "c"⟩].Perm
      ([⟨2, "ab"⟩, ⟨5, "c"⟩, ⟨5, ""⟩, ⟨9, "é"⟩] : List Entry) := by
    decide
  exact ⟨distinct, reordered, insertAll_reordered distinct reordered⟩

end Ledger

end TypedSvelte
