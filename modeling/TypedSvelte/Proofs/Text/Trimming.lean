import TypedSvelte.Text.Blank

/-!
# Trimmed texts

What trimming takes away is white space, and all there is of it at the ends of a text.
-/
namespace TypedSvelte

variable {lead cs trail : List Char} {c : Char}

/-- The text neither begins nor ends with white space. -/
def Trimmed (cs : List Char) : Prop :=
  (∀ c, cs.head? = some c → isBlank c = false) ∧ ∀ c, cs.getLast? = some c → isBlank c = false

theorem head?_dropWhile_blank (first : (cs.dropWhile isBlank).head? = some c) :
    isBlank c = false := by
  have kept := List.head?_dropWhile_not isBlank cs
  rw [first] at kept
  simpa using kept

theorem trimEnd_begins (cs : List Char) : trimEnd cs <+: cs := by
  refine ⟨(cs.reverse.takeWhile isBlank).reverse, ?_⟩
  unfold trimEnd
  rw [← List.reverse_append, List.takeWhile_append_dropWhile, List.reverse_reverse]

theorem trimmed_trim (cs : List Char) : Trimmed (trim cs) := by
  constructor
  · intro c first
    obtain ⟨rest, whole⟩ := trimEnd_begins (cs.dropWhile isBlank)
    refine @head?_dropWhile_blank cs c ?_
    rw [← whole, List.head?_append]
    change (trim cs).head?.or _ = _
    rw [first]
    rfl
  · intro c last
    unfold trim trimEnd at last
    rw [List.getLast?_reverse] at last
    exact head?_dropWhile_blank last

/-- A text is its trimmed form with white space around it. -/
theorem trim_parts (cs : List Char) :
    ∃ trail, cs = cs.takeWhile isBlank ++ trim cs ++ trail := by
  obtain ⟨trail, whole⟩ := trimEnd_begins (cs.dropWhile isBlank)
  refine ⟨trail, ?_⟩
  have split : trim cs ++ trail = cs.dropWhile isBlank := whole
  rw [List.append_assoc, split, List.takeWhile_append_dropWhile]

/-- Leading white space ends at a text that does not begin with any. -/
theorem dropWhile_blank (leadBlank : ∀ c ∈ lead, isBlank c = true)
    (first : ∀ c, cs.head? = some c → isBlank c = false) :
    (lead ++ cs).dropWhile isBlank = cs := by
  rw [List.dropWhile_append_of_pos leadBlank]
  cases cs with
  | nil => rfl
  | cons c rest => exact List.dropWhile_cons_of_neg (by simp [first c rfl])

/-- White space behind a text that does not end with any is what trimming its end takes away. -/
theorem trimEnd_append (trailBlank : ∀ c ∈ trail, isBlank c = true)
    (last : ∀ c, cs.getLast? = some c → isBlank c = false) : trimEnd (cs ++ trail) = cs := by
  rw [trimEnd, List.reverse_append, dropWhile_blank, List.reverse_reverse]
  · exact fun c member => trailBlank c (List.mem_reverse.1 member)
  · rw [List.head?_reverse]
    exact last

theorem trimEnd_of_last (last : ∀ c, cs.getLast? = some c → isBlank c = false) :
    trimEnd cs = cs := by
  have kept := @trimEnd_append cs [] nofun last
  rwa [List.append_nil] at kept

/-- White space around a trimmed text is what trimming takes away. -/
theorem trim_around (trimmed : Trimmed cs) (filled : cs ≠ [])
    (leadBlank : ∀ c ∈ lead, isBlank c = true) (trailBlank : ∀ c ∈ trail, isBlank c = true) :
    trim (lead ++ cs ++ trail) = cs := by
  obtain ⟨first, last⟩ := trimmed
  have start : ∀ c, (cs ++ trail).head? = some c → isBlank c = false := by
    cases cs with
    | nil => exact absurd rfl filled
    | cons c rest => exact first
  rw [trim, List.append_assoc, dropWhile_blank leadBlank start, trimEnd_append trailBlank last]

end TypedSvelte
