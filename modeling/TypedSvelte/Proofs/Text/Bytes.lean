import TypedSvelte.Position.Span
import TypedSvelte.Proofs.Text.Search

/-!
# Texts as bytes

Offsets count UTF-8 bytes. This module reads a text as the list of its bytes and says what a slice
is in terms of concatenation: `slice?` answers exactly when the text falls into three parts with
cuts at the two offsets (`slice?_eq_some_iff`). Whatever is said about copied text rests on that
decomposition and never on the encoding.
-/
namespace TypedSvelte

def bytes (text : String) : List UInt8 := text.toByteArray.data.toList

@[simp]
theorem bytes_empty : bytes "" = [] := rfl

@[simp]
theorem bytes_append (first second : String) :
    bytes (first ++ second) = bytes first ++ bytes second := by
  simp [bytes]

@[simp]
theorem length_bytes (text : String) : (bytes text).length = text.utf8ByteSize := by
  change text.toByteArray.size = text.utf8ByteSize
  exact String.size_toByteArray

theorem byte_append_left (first second : String) {i : Nat} (inside : i < first.utf8ByteSize) :
    (bytes (first ++ second))[i]? = (bytes first)[i]? := by
  rw [bytes_append, List.getElem?_append_left (by rwa [length_bytes])]

theorem byte_append_right (first second : String) {i : Nat} (past : first.utf8ByteSize ≤ i) :
    (bytes (first ++ second))[i]? = (bytes second)[i - first.utf8ByteSize]? := by
  rw [bytes_append, List.getElem?_append_right (by rwa [length_bytes]), length_bytes]

theorem byteSize_cons_pos (c : Char) (rest : List Char) : 0 < byteSize (c :: rest) :=
  Nat.add_pos_left c.utf8Size_pos (byteSize rest)

theorem byteSize_pos {text : List Char} (filled : text ≠ []) : 0 < byteSize text := by
  obtain ⟨c, rest, rfl⟩ := List.exists_cons_of_ne_nil filled
  exact byteSize_cons_pos c rest

/-- Beginnings of a text that have the same size are the same. -/
theorem eq_of_byteSize_eq {first second firstRest secondRest : List Char}
    (parts : first ++ firstRest = second ++ secondRest)
    (sizes : byteSize first = byteSize second) : first = second := by
  induction first generalizing second with
  | nil =>
    cases second with
    | nil => rfl
    | cons d ds => exact absurd sizes (Nat.ne_of_lt (byteSize_cons_pos d ds))
  | cons c cs ih =>
    cases second with
    | nil => exact absurd sizes.symm (Nat.ne_of_lt (byteSize_cons_pos c cs))
    | cons d ds =>
      obtain ⟨rfl, rest⟩ := List.cons.inj parts
      exact congrArg (c :: ·) (ih rest (Nat.add_left_cancel sizes))

/-- The size of a text is the size of its characters. -/
theorem utf8ByteSize_ofList (cs : List Char) : (String.ofList cs).utf8ByteSize = byteSize cs := by
  induction cs with
  | nil => rfl
  | cons c cs ih =>
    rw [String.ofList_cons, String.utf8ByteSize_append, ih, String.utf8ByteSize_singleton]
    rfl

theorem byteSize_toList (text : String) : byteSize text.toList = text.utf8ByteSize := by
  rw [← utf8ByteSize_ofList, String.ofList_toList]

/-- The first byte after some characters belongs to the next character. -/
theorem byte_after (before after : List Char) (c : Char) :
    (bytes (String.ofList (before ++ c :: after)))[byteSize before]? =
      (bytes (String.singleton c))[0]? := by
  have positive : 0 < (String.singleton c).utf8ByteSize := by
    rw [String.utf8ByteSize_singleton]
    exact c.utf8Size_pos
  rw [String.ofList_append, String.ofList_cons, ← utf8ByteSize_ofList,
    byte_append_right _ _ (Nat.le_refl _), Nat.sub_self, byte_append_left _ _ positive]

theorem pos?_eq_some_iff (source : String) (offset : Nat) (p : source.Pos) :
    source.pos? ⟨offset⟩ = some p ↔ p.offset = ⟨offset⟩ := by
  unfold String.pos? String.Slice.pos?
  constructor
  · intro h
    split at h
    · cases Option.some.inj h
      rfl
    · cases h
  · intro h
    have valid : (⟨offset⟩ : String.Pos.Raw).IsValid source := h ▸ p.isValid
    have sliceValid := String.Pos.Raw.isValidForSlice_eq_true_iff.2 valid.toSlice
    rw [dif_pos sliceValid]
    exact congrArg some (String.Pos.ext h.symm)

/-- A position of a concatenation that is not past the first part lies in the first part. -/
theorem isValid_left_of_append {first second : String} {offset : Nat}
    (valid : (⟨offset⟩ : String.Pos.Raw).IsValid (first ++ second))
    (inside : offset ≤ first.utf8ByteSize) : (⟨offset⟩ : String.Pos.Raw).IsValid first := by
  rcases String.Pos.Raw.isValid_append.1 valid with left | ⟨past, _⟩
  · exact left
  · have atEnd : (⟨offset⟩ : String.Pos.Raw) = first.rawEndPos := by
      apply String.Pos.Raw.ext
      exact Nat.le_antisymm inside past
    rw [atEnd]
    exact String.Pos.Raw.isValid_rawEndPos

/-- The bytes between the two cuts of a text in three parts are those of the middle part. -/
theorem extract_middle (before text after : String) :
    (before ++ text ++ after).toByteArray.extract before.utf8ByteSize
      (before.utf8ByteSize + text.utf8ByteSize) = text.toByteArray := by
  rw [String.append_assoc, String.toByteArray_append, String.toByteArray_append]
  have sizes := @ByteArray.extract_append_size_add' before.toByteArray
    (text.toByteArray ++ after.toByteArray) 0 text.utf8ByteSize before.utf8ByteSize
    String.size_toByteArray.symm
  rw [Nat.add_zero] at sizes
  rw [sizes]
  exact ByteArray.extract_append_eq_left String.size_toByteArray.symm

/-- A slice is what stands between two cuts of the source. -/
theorem slice?_eq_some_iff (source text : String) (start stop : Nat) :
    slice? source start stop = some text ↔
      ∃ before after, source = before ++ text ++ after ∧ before.utf8ByteSize = start ∧
        start + text.utf8ByteSize = stop := by
  constructor
  · intro h
    unfold slice? at h
    split at h
    · rename_i first last hfirst hlast
      have firstAt := (pos?_eq_some_iff source start first).1 hfirst
      have lastAt := (pos?_eq_some_iff source stop last).1 hlast
      split at h
      · rename_i ordered
        have extracted := Option.some.inj h
        obtain ⟨upTo, after, hsource, hstop⟩ :=
          String.Pos.Raw.isValid_iff_exists_append.1 (lastAt ▸ last.isValid)
        have stopSize : stop = upTo.utf8ByteSize := congrArg String.Pos.Raw.byteIdx hstop
        have startLe : start ≤ upTo.utf8ByteSize := by
          rw [← stopSize]
          simpa [String.Pos.le_iff, firstAt, lastAt] using ordered
        have startValid := isValid_left_of_append (hsource ▸ firstAt ▸ first.isValid) startLe
        obtain ⟨before, middle, hupTo, hstart⟩ :=
          String.Pos.Raw.isValid_iff_exists_append.1 startValid
        have startSize : start = before.utf8ByteSize := congrArg String.Pos.Raw.byteIdx hstart
        have stopSum : start + middle.utf8ByteSize = stop := by
          rw [stopSize, hupTo, startSize, String.utf8ByteSize_append]
        have same : text = middle := by
          apply String.toByteArray_inj.1
          rw [← extracted, String.toByteArray_extract, firstAt, lastAt]
          simp only [hsource, hupTo, ← stopSum, startSize]
          exact extract_middle before middle after
        exact ⟨before, after, by rw [hsource, hupTo, same], startSize.symm, by rw [same, stopSum]⟩
      · cases h
    · cases h
  · rintro ⟨before, after, rfl, rfl, rfl⟩
    have firstValid : (⟨before.utf8ByteSize⟩ : String.Pos.Raw).IsValid (before ++ text ++ after) :=
      String.Pos.Raw.isValid_iff_exists_append.2
        ⟨before, text ++ after, String.append_assoc, rfl⟩
    have lastValid : (⟨before.utf8ByteSize + text.utf8ByteSize⟩ : String.Pos.Raw).IsValid
        (before ++ text ++ after) :=
      String.Pos.Raw.isValid_iff_exists_append.2
        ⟨before ++ text, after, rfl, by apply String.Pos.Raw.ext; simp⟩
    unfold slice?
    rw [(pos?_eq_some_iff _ _ (String.pos _ _ firstValid)).2 rfl,
      (pos?_eq_some_iff _ _ (String.pos _ _ lastValid)).2 rfl]
    have ordered : String.pos _ _ firstValid ≤ String.pos _ _ lastValid := by
      simp [String.Pos.le_iff]
    simp only [if_pos ordered]
    apply congrArg some
    apply String.toByteArray_inj.1
    rw [String.toByteArray_extract]
    exact extract_middle before text after

theorem stop_of_slice? {source text : String} {start stop : Nat}
    (h : slice? source start stop = some text) : stop = start + text.utf8ByteSize := by
  obtain ⟨before, after, _, _, stopSum⟩ := (slice?_eq_some_iff source text start stop).1 h
  exact stopSum.symm

/-- A beginning of a slice is a slice. -/
theorem slice?_left {source first second : String} {start stop : Nat}
    (slice : slice? source start stop = some (first ++ second)) :
    slice? source start (start + first.utf8ByteSize) = some first := by
  obtain ⟨before, after, rfl, rfl, _⟩ := (slice?_eq_some_iff _ _ _ _).1 slice
  refine (slice?_eq_some_iff _ _ _ _).2 ⟨before, second ++ after, ?_, rfl, rfl⟩
  simp only [String.append_assoc]

/-- A slice holds the bytes that the source holds from its start on. -/
theorem byte_of_slice? {source text : String} {start stop : Nat}
    (h : slice? source start stop = some text) {i : Nat} (inside : i < text.utf8ByteSize) :
    (bytes source)[start + i]? = (bytes text)[i]? := by
  obtain ⟨before, after, rfl, rfl, _⟩ := (slice?_eq_some_iff source text start stop).1 h
  rw [byte_append_left _ _ (by simpa using inside),
    byte_append_right _ _ (Nat.le_add_right _ i), Nat.add_sub_cancel_left]

/-- The offset lies on a character boundary of the text. -/
def IsCut (text : String) (offset : Nat) : Prop := (⟨offset⟩ : String.Pos.Raw).IsValid text

instance (text : String) (offset : Nat) : Decidable (IsCut text offset) :=
  inferInstanceAs (Decidable (String.Pos.Raw.IsValid _ _))

theorem isCut_iff {text : String} {offset : Nat} :
    IsCut text offset ↔ ∃ before after, text = before ++ after ∧ before.utf8ByteSize = offset := by
  unfold IsCut
  rw [String.Pos.Raw.isValid_iff_exists_append]
  constructor
  · rintro ⟨before, after, split, position⟩
    exact ⟨before, after, split, (congrArg String.Pos.Raw.byteIdx position).symm⟩
  · rintro ⟨before, after, split, size⟩
    exact ⟨before, after, split, String.Pos.Raw.ext size.symm⟩

theorem IsCut.le {text : String} {offset : Nat} (cut : IsCut text offset) :
    offset ≤ text.utf8ByteSize :=
  String.Pos.Raw.IsValid.le_utf8ByteSize cut

/-- A cut of a slice is a cut of the text that it was taken from. -/
theorem IsCut.of_slice? {source text : String} {start stop offset : Nat}
    (slice : slice? source start stop = some text) (cut : IsCut text offset) :
    IsCut source (start + offset) := by
  obtain ⟨before, after, rfl, rfl, _⟩ := (slice?_eq_some_iff source text start stop).1 slice
  obtain ⟨first, second, rfl, rfl⟩ := isCut_iff.1 cut
  refine isCut_iff.2 ⟨before ++ first, second ++ after, ?_, String.utf8ByteSize_append⟩
  simp only [String.append_assoc]

/-- A slice begins and ends at a cut. -/
theorem cuts_of_slice? {source text : String} {start stop : Nat}
    (slice : slice? source start stop = some text) : IsCut source start ∧ IsCut source stop := by
  obtain ⟨before, after, rfl, rfl, rfl⟩ := (slice?_eq_some_iff source text start stop).1 slice
  constructor
  · exact isCut_iff.2 ⟨before, text ++ after, String.append_assoc .., rfl⟩
  · exact isCut_iff.2 ⟨before ++ text, after, rfl, String.utf8ByteSize_append⟩

/-- Between two cuts there is a slice. -/
theorem exists_slice? {source : String} {start stop : Nat} (first : IsCut source start)
    (last : IsCut source stop) (ordered : start ≤ stop) :
    ∃ text, slice? source start stop = some text := by
  obtain ⟨upTo, after, rfl, rfl⟩ := isCut_iff.1 last
  obtain ⟨before, text, rfl, rfl⟩ := isCut_iff.1 (isValid_left_of_append first ordered)
  exact ⟨text, (slice?_eq_some_iff _ _ _ _).2
    ⟨before, after, rfl, rfl, String.utf8ByteSize_append.symm⟩⟩

/-- A span that covers something covers a slice. -/
theorem slice?_of_text_ne {source : String} {s : Span} (covers : s.text source ≠ "") :
    slice? source s.start s.stop = some (s.text source) := by
  unfold Span.text at covers ⊢
  cases h : slice? source s.start s.stop with
  | none => simp [h] at covers
  | some text => rfl

theorem text_empty {source : String} {cut : Nat} (here : IsCut source cut) :
    (Span.mk cut cut).text source = "" := by
  obtain ⟨before, after, rfl, rfl⟩ := isCut_iff.1 here
  have slice : slice? (before ++ after) before.utf8ByteSize before.utf8ByteSize = some "" :=
    (slice?_eq_some_iff _ _ _ _).2 ⟨before, after, by simp, rfl, by simp⟩
  rw [Span.text, slice, Option.getD_some]

/-- The text up to a cut and the text behind it make the whole. -/
theorem text_append {content : String} {a b c : Nat} (first : IsCut content a) (middle : IsCut content b)
    (last : IsCut content c) (before : a ≤ b) (after : b ≤ c) :
    (Span.mk a b).text content ++ (Span.mk b c).text content = (Span.mk a c).text content := by
  obtain ⟨toLast, rest, rfl, rfl⟩ := isCut_iff.1 last
  obtain ⟨toMiddle, right, rfl, rfl⟩ := isCut_iff.1 (isValid_left_of_append middle after)
  rw [String.append_assoc] at first
  obtain ⟨toFirst, left, rfl, rfl⟩ := isCut_iff.1 (isValid_left_of_append first before)
  have one : slice? (toFirst ++ left ++ right ++ rest) toFirst.utf8ByteSize
      (toFirst ++ left).utf8ByteSize = some left :=
    (slice?_eq_some_iff _ _ _ _).2
      ⟨toFirst, right ++ rest, by simp only [String.append_assoc], rfl, by simp⟩
  have two : slice? (toFirst ++ left ++ right ++ rest) (toFirst ++ left).utf8ByteSize
      (toFirst ++ left ++ right).utf8ByteSize = some right :=
    (slice?_eq_some_iff _ _ _ _).2 ⟨toFirst ++ left, rest, rfl, rfl, by simp⟩
  have both : slice? (toFirst ++ left ++ right ++ rest) toFirst.utf8ByteSize
      (toFirst ++ left ++ right).utf8ByteSize = some (left ++ right) :=
    (slice?_eq_some_iff _ _ _ _).2
      ⟨toFirst, rest, by simp only [String.append_assoc], rfl, by simp [Nat.add_assoc]⟩
  rw [Span.text, Span.text, Span.text, one, two, both]
  rfl

end TypedSvelte
