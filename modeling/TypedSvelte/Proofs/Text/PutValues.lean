import Mathlib.Data.List.Induction
import TypedSvelte.Text.Entries

/-!
# Values put one after another

Of values that are put one after another, each name keeps the last one, and the names are in the
order of their first mention (`names_putAll`, `get?_putAll`). Where no name comes twice, the entries
are the pairs as they come (`putAll_eq_self`).
-/
namespace TypedSvelte.Entries

variable {β : Type}

/-- The entries that values leave when they are put one after another. -/
def putAll (pairs : List (String × β)) : Entries β :=
  pairs.foldl (fun entries pair => entries.put pair.1 pair.2) []

theorem putAll_snoc (pairs : List (String × β)) (last : String × β) :
    putAll (pairs ++ [last]) = (putAll pairs).put last.1 last.2 := by
  rw [putAll, List.foldl_append]
  rfl

/-- The names are in the order of their first mention. -/
theorem names_putAll (pairs : List (String × β)) :
    names (putAll pairs) = (pairs.map (·.1)).eraseDups := by
  induction pairs using List.reverseRecOn with
  | nil => rfl
  | append_singleton pairs last ih =>
    rw [putAll_snoc, names_put, ih, List.map_append, List.eraseDups_append]
    by_cases mentioned : last.1 ∈ pairs.map (·.1)
    · simp [List.removeAll, mentioned]
    · simp [List.removeAll, mentioned, List.eraseDups_cons]

/-- A name has the value that is put last. -/
theorem get?_putAll (pairs : List (String × β)) (name : String) :
    (putAll pairs).get? name = pairs.reverse.lookup name := by
  induction pairs using List.reverseRecOn with
  | nil => rfl
  | append_singleton pairs last ih =>
    obtain ⟨key, value⟩ := last
    rw [putAll_snoc, get?_put, ih, List.reverse_append, List.reverse_singleton,
      List.singleton_append, List.lookup_cons]
    by_cases same : name = key
    · simp [same]
    · simp [same, beq_eq_false_iff_ne.2 same]

/-- A new name comes last. -/
theorem put_of_not_mem {name : String} {value : β} {entries : Entries β}
    (new : name ∉ entries.names) : entries.put name value = entries ++ [(name, value)] := by
  induction entries with
  | nil => rfl
  | cons entry rest ih =>
    obtain ⟨other, later⟩ := not_or.1 (mt List.mem_cons.2 new)
    rw [put, if_neg fun same => other same.symm, ih later, List.cons_append]

/-- Where no name comes twice, the entries are the pairs as they come. -/
theorem putAll_eq_self {pairs : List (String × β)} (once : (pairs.map (·.1)).Nodup) :
    putAll pairs = pairs := by
  induction pairs using List.reverseRecOn with
  | nil => rfl
  | append_singleton pairs last ih =>
    rw [List.map_append, List.nodup_append] at once
    have new : last.1 ∉ pairs.map (·.1) := fun old =>
      once.2.2 _ old _ (List.mem_singleton_self last.1) rfl
    rw [putAll_snoc, ih once.1, put_of_not_mem new]

def valuesOf (name : String) (pairs : List (String × β)) : List β :=
  pairs.filterMap fun pair => if pair.1 = name then some pair.2 else none

theorem valuesOf_append (name : String) (pairs more : List (String × β)) :
    valuesOf name (pairs ++ more) = valuesOf name pairs ++ valuesOf name more :=
  List.filterMap_append

theorem valuesOf_flatMap {α : Type} (name : String) (xs : List α) (f : α → List (String × β)) :
    valuesOf name (xs.flatMap f) = xs.flatMap fun x => valuesOf name (f x) :=
  List.filterMap_flatMap

theorem valuesOf_map {γ : Type} (name : String) (f : String → β → γ) (pairs : List (String × β)) :
    valuesOf name (pairs.map fun (key, value) => (key, f key value)) =
      (valuesOf name pairs).map (f name) := by
  induction pairs with
  | nil => rfl
  | cons pair rest ih =>
    simp only [valuesOf] at ih
    by_cases same : pair.1 = name
    · simp [valuesOf, same, ih]
    · simp [valuesOf, same, ih]

theorem valuesOf_eq_nil_iff (name : String) (pairs : List (String × β)) :
    valuesOf name pairs = [] ↔ name ∉ pairs.map (·.1) := by
  rw [valuesOf, List.filterMap_eq_nil_iff, List.mem_map]
  constructor
  · rintro absent ⟨pair, member, rfl⟩
    cases (if_pos rfl).symm.trans (absent pair member)
  · exact fun new pair member => if_neg fun same => new ⟨pair, member, same⟩

/-- A name is looked up at the first of its values. -/
theorem lookup_eq_head? (name : String) (pairs : List (String × β)) :
    pairs.lookup name = (valuesOf name pairs).head? := by
  induction pairs with
  | nil => rfl
  | cons pair rest ih =>
    obtain ⟨key, value⟩ := pair
    by_cases same : key = name
    · simp [valuesOf, same]
    · simp only [valuesOf] at ih
      simp [valuesOf, same, List.lookup_cons, beq_eq_false_iff_ne.2 (Ne.symm same), ih]

/-- Of the values that are put to a name the last one stays. -/
theorem get?_putAll_eq_getLast? (pairs : List (String × β)) (name : String) :
    (putAll pairs).get? name = (valuesOf name pairs).getLast? := by
  rw [get?_putAll, lookup_eq_head?, valuesOf, List.filterMap_reverse, List.head?_reverse]
  rfl

end TypedSvelte.Entries
