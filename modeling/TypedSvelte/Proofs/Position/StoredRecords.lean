import TypedSvelte.Proofs.Position.LedgerRecords

/-!
# Records that are kept and patched

A ledger may keep its records and patch them with every text, instead of counting the totals anew
from its entries. Each call then searches the place of the position, moves the records behind it, and
puts one record there. After any calls it holds the records that `insertions` counts
(`records_ofCalls`), so `calls_recorded` and `insertAll_reordered` are about this loop as well.
-/
namespace TypedSvelte

/-- A ledger that keeps its records. -/
structure StoredLedger where
  records : List Insertion
  deriving DecidableEq, Repr, Inhabited

namespace StoredLedger

def empty : StoredLedger := ⟨[]⟩

/-- What the records before a new one insert. The last of them must not have the same position. -/
def precedingTotal (position : Nat) (before : List Insertion) : Except LedgerError Nat :=
  match before.getLast? with
  | some last =>
    if last.position = position then .error (.duplicatePosition position) else .ok last.total
  | none => .ok 0

/-- Records `text` before `position`, with the records behind it moved by its length. -/
def insert (ledger : StoredLedger) (position : Nat) (text : String) :
    Except LedgerError StoredLedger := do
  if text.isEmpty then return ledger
  let length := text.utf8ByteSize
  let before := ledger.records.takeWhile (·.position ≤ position)
  let behind := ledger.records.dropWhile (·.position ≤ position)
  let preceding ← precedingTotal position before
  return ⟨before ++
    ⟨position, position + preceding, length, text, preceding + length⟩ ::
      behind.map (·.shifted length)⟩

def afterCall (ledger : StoredLedger) (call : Nat × String) : StoredLedger :=
  match ledger.insert call.1 call.2 with
  | .ok next => next
  | .error _ => ledger

def ofCalls (calls : List (Nat × String)) : StoredLedger := calls.foldl afterCall empty

def ofLedger (ledger : Ledger) : StoredLedger := ⟨ledger.insertions⟩

open Ledger

/-- Where the search for a position divides the records, the entries divide as well. -/
private theorem searched {position : Nat} {before behind : List Entry}
    (low : ∀ e ∈ before, e.position ≤ position) (high : ∀ e ∈ behind, position < e.position) :
    (placed 0 (before ++ behind)).takeWhile (·.position ≤ position) = placed 0 before ∧
      (placed 0 (before ++ behind)).dropWhile (·.position ≤ position) =
        placed (lengths before) behind := by
  have under : ∀ r ∈ placed 0 before, decide (r.position ≤ position) = true := by
    intro r member
    have named := List.mem_map_of_mem (f := (·.position)) member
    rw [positions_placed] at named
    obtain ⟨e, inBefore, same⟩ := List.mem_map.1 named
    exact decide_eq_true (same ▸ low e inBefore)
  have beyond : ∀ r ∈ placed (lengths before) behind, ¬ decide (r.position ≤ position) = true := by
    intro r member
    have named := List.mem_map_of_mem (f := (·.position)) member
    rw [positions_placed] at named
    obtain ⟨e, inBehind, same⟩ := List.mem_map.1 named
    have above := high e inBehind
    rw [decide_eq_true_eq, ← same]
    omega
  rw [placed_append, Nat.zero_add, List.takeWhile_append_of_pos under,
    List.dropWhile_append_of_pos under]
  cases rest : placed (lengths before) behind with
  | nil => exact ⟨List.append_nil _, rfl⟩
  | cons r more =>
    have stop := beyond r (rest ▸ List.mem_cons_self)
    have none := List.takeWhile_cons_of_neg (p := fun r : Insertion => r.position ≤ position)
      (l := more) stop
    have all := List.dropWhile_cons_of_neg (p := fun r : Insertion => r.position ≤ position)
      (l := more) stop
    exact ⟨by rw [none, List.append_nil], all⟩

private theorem around {position : Nat} {text : String} {before behind : List Entry}
    (increasing : Increasing (before ++ ⟨position, text⟩ :: behind)) :
    (∀ e ∈ before, e.position < position) ∧ ∀ e ∈ behind, position < e.position := by
  obtain ⟨_, fromHere, apart⟩ := List.pairwise_append.1 increasing
  exact ⟨fun e member => apart e member _ List.mem_cons_self, (increasing_cons.1 fromHere).1⟩

private theorem precedingTotal_last {position : Nat} (before : List Entry) (entry : Entry)
    (same : entry.position = position) :
    precedingTotal position (placed 0 (before ++ [entry])) =
      .error (.duplicatePosition position) := by
  rw [placed_append, precedingTotal, placed_cons, placed, List.getLast?_concat]
  exact if_pos same

private theorem precedingTotal_free {position : Nat} {before : List Entry}
    (low : ∀ e ∈ before, e.position < position) :
    precedingTotal position (placed 0 before) = .ok (lengths before) := by
  rw [precedingTotal, ← lastTotal_placed_zero before, lastTotal]
  cases found : (placed 0 before).getLast? with
  | none => rfl
  | some last =>
    have named := List.mem_map_of_mem (f := (·.position)) (List.mem_of_getLast? found)
    rw [positions_placed] at named
    obtain ⟨e, member, same⟩ := List.mem_map.1 named
    have differs : last.position ≠ position := same ▸ Nat.ne_of_lt (low e member)
    exact if_neg differs

/-- Patching the records of a ledger gives the records of the ledger with the text. -/
theorem insert_ofLedger {ledger : Ledger} (increasing : Increasing ledger.entries)
    (position : Nat) (text : String) :
    (ofLedger ledger).insert position text = (ledger.insert position text).map ofLedger := by
  by_cases given : text = ""
  · rw [given]
    rfl
  have unempty : text.isEmpty = false := by simpa using given
  by_cases taken : ledger.Taken position
  · rw [insert_taken increasing given taken]
    obtain ⟨e, member, same⟩ := taken_iff.1 taken
    obtain ⟨before, behind, split⟩ := List.append_of_mem member
    rw [split] at increasing
    obtain ⟨low, high⟩ := around increasing
    have upTo : ∀ old ∈ before ++ [e], old.position ≤ position := by
      intro old inHere
      rcases List.mem_append.1 inHere with earlier | here
      · exact same ▸ Nat.le_of_lt (low old earlier)
      · rw [List.mem_singleton.1 here, same]
    have divided := searched upTo fun later inBehind => same ▸ high later inBehind
    rw [List.append_assoc, List.singleton_append, ← split] at divided
    simp only [insert, ofLedger, insertions, unempty, divided.1, precedingTotal_last before e same]
    rfl
  · obtain ⟨next, before, behind, recorded, split, made⟩ := insert_free increasing given taken
    have nextIncreasing := increasing_afterCall increasing (position, text)
    rw [afterCall_of_ok recorded, made] at nextIncreasing
    obtain ⟨low, high⟩ := around nextIncreasing
    obtain ⟨earlier, later⟩ := searched (fun e member => Nat.le_of_lt (low e member)) high
    have counted : ofLedger next = ⟨placed 0 before ++ record (lengths before) ⟨position, text⟩ ::
        (placed (lengths before) behind).map (·.shifted text.utf8ByteSize)⟩ := by
      rw [ofLedger, insertions, made, placed_between]
    simp only [recorded, insert, ofLedger, insertions, unempty, split, earlier, later,
      precedingTotal_free low]
    exact congrArg Except.ok counted.symm

private theorem afterCall_ofLedger {ledger : Ledger} (increasing : Increasing ledger.entries)
    (call : Nat × String) : (ofLedger ledger).afterCall call = ofLedger (ledger.afterCall call) := by
  rw [afterCall, insert_ofLedger increasing, Ledger.afterCall]
  cases ledger.insert call.1 call.2 <;> rfl

/-- After any calls the records that are kept are those that `insertions` counts, and the next call
is answered alike. -/
theorem records_ofCalls (calls : List (Nat × String)) :
    (ofCalls calls).records = (Ledger.ofCalls calls).insertions ∧
      ∀ position text, ((ofCalls calls).insert position text).map (·.records) =
        ((Ledger.ofCalls calls).insert position text).map (·.insertions) := by
  have kept : ofCalls calls = ofLedger (Ledger.ofCalls calls) := by
    induction calls using List.reverseRecOn with
    | nil => rfl
    | append_singleton calls call ih =>
      rw [ofCalls, List.foldl_concat, ← ofCalls, ih, ofCalls_concat,
        afterCall_ofLedger (increasing_ofCalls calls)]
  refine ⟨congrArg records kept, fun position text => ?_⟩
  rw [kept, insert_ofLedger (increasing_ofCalls calls)]
  cases (Ledger.ofCalls calls).insert position text <;> rfl

/-- The text for the smaller offset comes later and moves the first record. -/
example :
    (ofCalls [(9, "é"), (2, "ab"), (9, "x")]).records =
      [⟨2, 2, 2, "ab", 2⟩, ⟨9, 11, 2, "é", 4⟩] := by
  decide

end StoredLedger

end TypedSvelte
