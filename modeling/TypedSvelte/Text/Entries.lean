/-!
# Entries in the order of their names' first mention

Each name has one value. A value that is put again replaces the one before it in its place, so the
order of the names is the order in which they were first put.
-/
namespace TypedSvelte

abbrev Entries (β : Type) := List (String × β)

namespace Entries

variable {β : Type}

def names (entries : Entries β) : List String := entries.map (·.1)

def get? (entries : Entries β) (name : String) : Option β := List.lookup name entries

def put (name : String) (value : β) : Entries β → Entries β
  | [] => [(name, value)]
  | (key, old) :: rest =>
    if key = name then (name, value) :: rest else (key, old) :: put name value rest

theorem get?_put (entries : Entries β) (name other : String) (value : β) :
    (put name value entries).get? other =
      if other = name then some value else entries.get? other := by
  induction entries with
  | nil =>
    by_cases h : other = name <;> simp [put, get?, h]
  | cons entry rest ih =>
    obtain ⟨key, old⟩ := entry
    by_cases hk : key = name
    · subst hk
      by_cases h : other = key <;> simp [put, get?, List.lookup_cons, h, beq_eq_false_iff_ne.2]
    · by_cases h : other = key
      · subst h
        simp [put, get?, hk]
      · have hne : (other == key) = false := beq_eq_false_iff_ne.2 h
        simpa [put, get?, List.lookup_cons, hk, hne] using ih

/-- A name keeps its place; a new one comes last. -/
theorem names_put (entries : Entries β) (name : String) (value : β) :
    names (put name value entries) =
      if name ∈ names entries then names entries else names entries ++ [name] := by
  induction entries with
  | nil => rfl
  | cons entry rest ih =>
    obtain ⟨key, old⟩ := entry
    by_cases hk : key = name
    · subst hk
      simp [put, names]
    · have hne : ¬ name = key := fun h => hk h.symm
      have hput : names (put name value ((key, old) :: rest)) =
          key :: names (put name value rest) := by simp [put, names, hk]
      have hcons : names ((key, old) :: rest) = key :: names rest := rfl
      rw [hput, ih, hcons]
      by_cases h : name ∈ names rest <;> simp [h, hne]

end Entries

end TypedSvelte
