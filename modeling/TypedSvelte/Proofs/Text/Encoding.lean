import TypedSvelte.Proofs.Text.Bytes

/-!
# Bytes of characters

A character that takes one byte is that byte, and all bytes of a wider one are beyond the ASCII
range (`le_of_mem_bytes`). So a text can be searched for ASCII characters byte by byte.
-/
namespace TypedSvelte

variable {c : Char} {b : UInt8}

private theorem bytes_singleton (c : Char) : bytes (String.singleton c) = String.utf8EncodeChar c := by
  rw [bytes, String.toByteArray_singleton, List.utf8Encode_singleton,
    List.data_toByteArray, List.toList_toArray]

theorem length_bytes_singleton (c : Char) : (bytes (String.singleton c)).length = c.utf8Size := by
  rw [length_bytes, String.utf8ByteSize_singleton]

/-- A text is encoded character by character. -/
theorem bytes_ofList_cons (c : Char) (cs : List Char) :
    bytes (String.ofList (c :: cs)) = bytes (String.singleton c) ++ bytes (String.ofList cs) := by
  rw [String.ofList_cons, bytes_append]

theorem bytes_of_narrow (narrow : c.utf8Size = 1) :
    bytes (String.singleton c) = [c.val.toUInt8] := by
  rw [bytes_singleton, String.utf8EncodeChar_eq_singleton narrow]

/-- The bytes of a wide character are none of ASCII. -/
theorem le_of_mem_bytes (wide : c.utf8Size ≠ 1) (member : b ∈ bytes (String.singleton c)) :
    128 ≤ b.toNat := by
  have beyond : ¬ c.val.toNat ≤ 127 := fun small => wide (Char.utf8Size_eq_one_iff.2 small)
  -- a lead byte holds at most five bits of the code, and a byte that follows six of them
  have marked (code mark : Nat) (low : 128 ≤ mark) (high : code + mark < 256) :
      128 ≤ (UInt8.ofNat (code + mark)).toNat := by
    rw [UInt8.toNat_ofNat', Nat.mod_eq_of_lt high]
    omega
  rw [bytes_singleton, String.utf8EncodeChar] at member
  rw [if_neg beyond] at member
  split at member
  · simp only [List.mem_cons, List.not_mem_nil, or_false] at member
    rcases member with rfl | rfl <;> exact marked _ _ (by decide) (by omega)
  · split at member
    · simp only [List.mem_cons, List.not_mem_nil, or_false] at member
      rcases member with rfl | rfl | rfl <;> exact marked _ _ (by decide) (by omega)
    · simp only [List.mem_cons, List.not_mem_nil, or_false] at member
      rcases member with rfl | rfl | rfl | rfl <;> exact marked _ _ (by decide) (by omega)

/-- The bytes of a text, each as the character with its number. -/
def byteChars (text : List Char) : List Char := (bytes (String.ofList text)).map Char.ofUInt8

/-- A character of ASCII is its own byte. -/
theorem byteChars_narrow (narrow : c.utf8Size = 1) (rest : List Char) :
    byteChars (c :: rest) = c :: byteChars rest := by
  have small : c.val.toNat ≤ 127 := Char.utf8Size_eq_one_iff.1 narrow
  have same : Char.ofUInt8 c.val.toUInt8 = c := by
    apply Char.toNat_inj.1
    change c.val.toNat % 256 = c.val.toNat
    exact Nat.mod_eq_of_lt (by omega)
  rw [byteChars, bytes_ofList_cons, bytes_of_narrow narrow, List.map_append, List.map_singleton,
    same]
  rfl

/-- The bytes of a character: all behind the first one are beyond ASCII, and so are the first one
and the character itself, unless it is the only byte. -/
theorem byteChars_cons (c : Char) (rest : List Char) :
    ∃ first others, byteChars (c :: rest) = first :: (others ++ byteChars rest) ∧
      others.length + 1 = c.utf8Size ∧ (∀ d ∈ others, 128 ≤ d.toNat) ∧
      (first = c ∧ others = [] ∨ 128 ≤ first.toNat ∧ 128 ≤ c.toNat) := by
  by_cases narrow : c.utf8Size = 1
  · exact ⟨c, [], byteChars_narrow narrow rest, narrow.symm, nofun, .inl ⟨rfl, rfl⟩⟩
  · have beyond : 128 ≤ c.toNat := by
      refine Nat.not_lt.1 fun small => narrow (Char.utf8Size_eq_one_iff.2 ?_)
      change c.toNat ≤ 127
      omega
    have whole : byteChars (c :: rest) =
        (bytes (String.singleton c)).map Char.ofUInt8 ++ byteChars rest := by
      rw [byteChars, bytes_ofList_cons, List.map_append]
      rfl
    have size : ((bytes (String.singleton c)).map Char.ofUInt8).length = c.utf8Size := by
      rw [List.length_map, length_bytes_singleton]
    have high : ∀ d ∈ (bytes (String.singleton c)).map Char.ofUInt8, 128 ≤ d.toNat := by
      intro d member
      obtain ⟨b, inBytes, rfl⟩ := List.mem_map.1 member
      exact le_of_mem_bytes narrow inBytes
    cases own : (bytes (String.singleton c)).map Char.ofUInt8 with
    | nil =>
      rw [own] at size
      exact absurd size.symm c.utf8Size_pos.ne'
    | cons first others =>
      rw [own] at whole size high
      obtain ⟨firstHigh, othersHigh⟩ := List.forall_mem_cons.1 high
      exact ⟨first, others, whole, size, othersHigh, .inr ⟨firstHigh, beyond⟩⟩

end TypedSvelte
