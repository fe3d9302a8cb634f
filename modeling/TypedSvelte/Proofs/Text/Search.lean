import Mathlib.Data.List.Infix
import TypedSvelte.Text.Blank

/-!
# Searching texts

`findText?` answers with the number of characters before a pattern, and none of what it passes is
the pattern. For a pattern that does not overlap with itself this says it all
(`findText?_eq_some_iff`): the text falls into what is passed, the pattern and the rest.
-/
namespace TypedSvelte

/-- A found pattern begins where the search says. -/
theorem findText?_spec {pattern text : List Char} {n : Nat}
    (found : findText? pattern text = some n) : pattern <+: text.drop n := by
  induction text generalizing n with
  | nil =>
    unfold findText? at found
    split at found
    · rename_i empty
      rw [List.isEmpty_iff.1 empty]
      exact List.nil_prefix
    · cases found
  | cons c cs ih =>
    unfold findText? at found
    split at found
    · rename_i here
      cases found
      exact List.isPrefixOf_iff_prefix.1 here
    · obtain ⟨later, foundLater, rfl⟩ := Option.map_eq_some_iff.1 found
      exact ih foundLater

/-- A pattern is found at the same place whatever follows the text. -/
theorem findText?_append {pattern text after : List Char} {n : Nat}
    (found : findText? pattern text = some n) : findText? pattern (text ++ after) = some n := by
  induction text generalizing n with
  | nil =>
    have isEmpty := (Option.ite_none_right_eq_some.1 found).1
    have empty : pattern = [] := by simpa using isEmpty
    cases empty
    cases found
    cases after <;> rfl
  | cons c cs ih =>
    rw [findText?] at found
    rw [List.cons_append, findText?]
    split at found
    · rename_i here
      have begins : pattern <+: c :: (cs ++ after) :=
        (List.isPrefixOf_iff_prefix.1 here).trans ⟨after, rfl⟩
      rw [if_pos (List.isPrefixOf_iff_prefix.2 begins)]
      exact found
    · rename_i notHere
      obtain ⟨m, inRest, rfl⟩ := Option.map_eq_some_iff.1 found
      have size := (findText?_spec inRest).length_le
      -- a pattern that fits into the text and begins the longer one would begin the text
      have fits : pattern.length ≤ (c :: cs).length := by
        simp only [List.length_drop, List.length_cons] at size ⊢
        omega
      have absent : ¬pattern.isPrefixOf (c :: (cs ++ after)) = true := by
        intro begins
        apply notHere
        have whole := List.isPrefixOf_iff_prefix.1 begins
        exact List.isPrefixOf_iff_prefix.2 (List.prefix_of_prefix_length_le whole ⟨after, rfl⟩ fits)
      rw [if_neg absent, ih inRest]
      rfl

/-- A text that occurs is found. -/
theorem isSome_findText? {pattern text : List Char} {n : Nat}
    (begins : pattern <+: text.drop n) : (findText? pattern text).isSome = true := by
  induction text generalizing n with
  | nil =>
    rw [List.drop_nil, List.prefix_nil] at begins
    cases begins
    rfl
  | cons c cs ih =>
    rw [findText?]
    split
    · rfl
    · rename_i notHere
      cases n with
      | zero => exact absurd (List.isPrefixOf_iff_prefix.2 begins) notHere
      | succ m =>
        rw [Option.isSome_map]
        exact ih begins

/-- A pattern that is found early is found in the part of the text that holds it. -/
theorem findText?_of_append {pattern front after : List Char}
    (found : findText? pattern (front ++ after) = some n)
    (inside : n + pattern.length ≤ front.length) : findText? pattern front = some n := by
  induction front generalizing n with
  | nil =>
    obtain ⟨rfl, empty⟩ := Nat.add_eq_zero_iff.1 (Nat.le_zero.1 inside)
    rw [List.length_eq_zero_iff.1 empty]
    rfl
  | cons c cs ih =>
    rw [List.cons_append, findText?] at found
    rw [findText?]
    split at found
    · rename_i here
      have short : pattern.length ≤ (c :: cs).length := by omega
      have begins := List.prefix_of_prefix_length_le (List.isPrefixOf_iff_prefix.1 here)
        (List.prefix_append (c :: cs) after) short
      rw [if_pos (List.isPrefixOf_iff_prefix.2 begins)]
      exact found
    · rename_i notHere
      obtain ⟨m, later, rfl⟩ := Option.map_eq_some_iff.1 found
      rw [if_neg, ih later (by rw [List.length_cons] at inside; omega)]
      · rfl
      · intro begins
        apply notHere
        have whole := List.isPrefixOf_iff_prefix.1 begins
        exact List.isPrefixOf_iff_prefix.2 (whole.trans (List.prefix_append (c :: cs) after))

/-- A text is found behind one that it does not occur in, unless it overlaps with itself. -/
theorem findText?_new {pattern new rest : List Char} (absent : ¬pattern <:+: new)
    (borderless : ∀ n < pattern.length, 0 < n → ¬pattern.drop n <+: pattern) :
    findText? pattern (new ++ (pattern ++ rest)) = some new.length := by
  induction new with
  | nil =>
    cases pattern with
    | nil => exact absurd List.nil_infix absent
    | cons c cs =>
      rw [List.nil_append, List.cons_append, findText?, if_pos]
      · rfl
      · rw [List.isPrefixOf_iff_prefix]
        exact List.prefix_append _ _
  | cons c cs ih =>
    have later := ih fun inside => absent (inside.trans (List.suffix_cons c cs).isInfix)
    have notHere : ¬pattern <+: (c :: cs) ++ (pattern ++ rest) := by
      intro begins
      rcases Nat.lt_or_ge (c :: cs).length pattern.length with longer | shorter
      · obtain ⟨kept, rfl⟩ := List.prefix_of_prefix_length_le (List.prefix_append _ _) begins longer.le
        have size : 0 < kept.length := by
          rw [List.length_append] at longer
          omega
        apply borderless (c :: cs).length longer (Nat.succ_pos _)
        rw [List.drop_left]
        have inner : kept <+: ((c :: cs) ++ kept) ++ rest := (List.prefix_append_right_inj _).1 begins
        refine List.prefix_of_prefix_length_le inner (List.prefix_append _ _) ?_
        rw [List.length_append]
        exact Nat.le_add_left _ _
      · exact absent (List.prefix_of_prefix_length_le begins (List.prefix_append _ _) shorter).isInfix
    rw [List.cons_append, findText?, if_neg, later]
    · rfl
    · rw [List.isPrefixOf_iff_prefix]
      exact notHere

/-- A pattern that does not overlap with itself is found behind the text before it that it does not
occur in. -/
theorem findText?_eq_some_iff {pattern text : List Char} {n : Nat} (filled : pattern ≠ [])
    (borderless : ∀ n < pattern.length, 0 < n → ¬pattern.drop n <+: pattern) :
    findText? pattern text = some n ↔
      ∃ before after, text = before ++ (pattern ++ after) ∧ ¬pattern <:+: before ∧
        before.length = n := by
  constructor
  · intro found
    obtain ⟨after, ahead⟩ := findText?_spec found
    have parts : text = text.take n ++ (pattern ++ after) := by
      rw [ahead, List.take_append_drop]
    have within : n ≤ text.length := by
      apply Nat.le_of_not_lt
      intro beyond
      rw [List.drop_eq_nil_of_le beyond.le] at ahead
      exact filled (List.append_eq_nil_iff.1 ahead).1
    have size : (text.take n).length = n := by rw [List.length_take, Nat.min_eq_left within]
    refine ⟨text.take n, after, parts, ?_, size⟩
    rintro ⟨front, others, occurs⟩
    -- the search would end before the end of the front
    have begins : pattern <+: (text.take n).drop front.length := by
      rw [← occurs, List.append_assoc, List.drop_left]
      exact List.prefix_append ..
    obtain ⟨m, early⟩ := Option.isSome_iff_exists.1 (isSome_findText? begins)
    have late : findText? pattern (text.take n ++ (pattern ++ after)) = some m :=
      findText?_append early
    rw [← parts, found] at late
    cases late
    have nothing := findText?_spec early
    rw [List.drop_eq_nil_of_le size.le, List.prefix_nil] at nothing
    exact filled nothing
  · rintro ⟨before, after, rfl, absent, rfl⟩
    exact findText?_new absent borderless

theorem findText?_char_eq_some_iff {cs : List Char} {c : Char} {n : Nat} :
    findText? [c] cs = some n ↔
      ∃ before after, cs = before ++ c :: after ∧ c ∉ before ∧ before.length = n := by
  have borderless : ∀ n < [c].length, 0 < n → ¬[c].drop n <+: [c] := by
    intro n short positive
    rw [List.length_singleton] at short
    omega
  simp only [findText?_eq_some_iff (List.cons_ne_nil c []) borderless, List.singleton_append,
    List.singleton_infix_iff]

/-- A character is found behind all that comes before it. -/
theorem findText?_char {before after : List Char} {c : Char} (absent : c ∉ before) :
    findText? [c] (before ++ c :: after) = some before.length :=
  findText?_char_eq_some_iff.2 ⟨before, after, rfl, absent, rfl⟩

end TypedSvelte
