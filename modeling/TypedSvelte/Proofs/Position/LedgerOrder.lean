import TypedSvelte.Position.Ledger

/-!
# Runs of insertions

The ledgers that calls of `insert` lead to, in whatever order the positions come. A refused call
leaves the ledger as it is. Both translations and the assembled text rest on one invariant of these
ledgers, that the positions increase strictly (`increasing_ofCalls`).
-/
namespace TypedSvelte.Ledger

def afterCall (ledger : Ledger) (call : Nat × String) : Ledger :=
  match ledger.insert call.1 call.2 with
  | .ok next => next
  | .error _ => ledger

/-- The ledger after calls in a row, nothing having been recorded before. -/
def ofCalls (calls : List (Nat × String)) : Ledger := calls.foldl afterCall empty

def Increasing (entries : List Entry) : Prop :=
  entries.Pairwise fun earlier later => earlier.position < later.position

theorem increasing_cons {entry : Entry} {rest : List Entry} :
    Increasing (entry :: rest) ↔
      (∀ later ∈ rest, entry.position < later.position) ∧ Increasing rest :=
  List.pairwise_cons

/-- Entries in order are told by which ones they are. -/
theorem Increasing.eq_of_perm {entries other : List Entry} (increasing : Increasing entries)
    (otherIncreasing : Increasing other) (perm : entries.Perm other) : entries = other := by
  refine List.Perm.eq_of_pairwise ?_ increasing otherIncreasing perm
  intro a b _ _ before behind
  omega

/-- Placing an entry adds nothing else. -/
theorem mem_of_place {position : Nat} {text : String} {entries placed : List Entry}
    (h : place position text entries = .ok placed) {e : Entry} (member : e ∈ placed) :
    e = ⟨position, text⟩ ∨ e ∈ entries := by
  induction entries generalizing placed with
  | nil =>
    cases h
    simpa using member
  | cons entry rest ih =>
    unfold place at h
    split at h
    · cases h
      simpa using member
    · split at h
      · cases h
      · cases hrest : place position text rest with
        | error e => simp [hrest, Except.map] at h
        | ok tail =>
          simp only [hrest, Except.map, Except.ok.injEq] at h
          subst h
          rcases List.mem_cons.1 member with rfl | inTail
          · exact Or.inr List.mem_cons_self
          · rcases ih hrest inTail with new | old
            · exact Or.inl new
            · exact Or.inr (List.mem_cons_of_mem entry old)

/-- An entry is placed behind the smaller positions and before the larger ones. -/
theorem increasing_place {position : Nat} {text : String} {entries placed : List Entry}
    (h : place position text entries = .ok placed) (increasing : Increasing entries) :
    Increasing placed := by
  induction entries generalizing placed with
  | nil =>
    cases h
    exact List.pairwise_singleton _ _
  | cons entry rest ih =>
    obtain ⟨above, restIncreasing⟩ := increasing_cons.1 increasing
    unfold place at h
    split at h
    · rename_i before
      cases h
      refine increasing_cons.2 ⟨?_, increasing⟩
      intro later member
      rcases List.mem_cons.1 member with rfl | inRest
      · exact before
      · exact Nat.lt_trans before (above later inRest)
    · rename_i notBefore
      split at h
      · cases h
      · rename_i different
        cases hrest : place position text rest with
        | error e => simp [hrest, Except.map] at h
        | ok tail =>
          simp only [hrest, Except.map, Except.ok.injEq] at h
          subst h
          refine increasing_cons.2 ⟨?_, ih hrest restIncreasing⟩
          intro later member
          rcases mem_of_place hrest member with rfl | inRest
          · change entry.position < position
            omega
          · exact above later inRest

theorem increasing_afterCall {ledger : Ledger} (increasing : Increasing ledger.entries)
    (call : Nat × String) : Increasing (ledger.afterCall call).entries := by
  unfold afterCall
  split
  · rename_i next recorded
    unfold insert at recorded
    split at recorded
    · cases recorded
      exact increasing
    · cases hplace : place call.1 call.2 ledger.entries with
      | error e => simp [hplace, Except.map] at recorded
      | ok placed =>
        simp only [hplace, Except.map, Except.ok.injEq] at recorded
        subst recorded
        exact increasing_place hplace increasing
  · exact increasing

/-- Every sequence of calls leaves the positions in strictly increasing order. -/
theorem increasing_ofCalls (calls : List (Nat × String)) : Increasing (ofCalls calls).entries := by
  have run : ∀ (calls : List (Nat × String)) (ledger : Ledger), Increasing ledger.entries →
      Increasing (calls.foldl afterCall ledger).entries := by
    intro calls
    induction calls with
    | nil => exact fun _ increasing => increasing
    | cons call rest ih => exact fun _ increasing => ih _ (increasing_afterCall increasing call)
  exact run calls empty List.Pairwise.nil

end TypedSvelte.Ledger
