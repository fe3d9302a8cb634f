import TypedSvelte.Proofs.Position.LedgerTranslation
import TypedSvelte.Proofs.Text.Bytes

/-!
# The assembled text

`assemble?` copies slices of the source between the inserted texts; the translations only count.
`Woven` describes what the copying leaves behind, one step for each entry, and each fact about the
output is one induction over it. `Assembled` collects what they give: output and translation are
the same edit.
-/
namespace TypedSvelte

/-- A cut of a text that is not inside its first part cuts its second part. -/
theorem split_at_cut {seen left : String} {offset : Nat}
    (valid : (⟨offset⟩ : String.Pos.Raw).IsValid (seen ++ left))
    (low : seen.utf8ByteSize ≤ offset) :
    ∃ before after, left = before ++ after ∧ offset = seen.utf8ByteSize + before.utf8ByteSize := by
  rcases String.Pos.Raw.isValid_append.1 valid with inSeen | ⟨_, inLeft⟩
  · have high : offset ≤ seen.utf8ByteSize := inSeen.le_utf8ByteSize
    exact ⟨"", left, by simp, by simpa using Nat.le_antisymm high low⟩
  · obtain ⟨before, after, split, position⟩ :=
      String.Pos.Raw.isValid_iff_exists_append.1 inLeft
    refine ⟨before, after, split, ?_⟩
    have size := congrArg String.Pos.Raw.byteIdx position
    simp at size
    omega

namespace Ledger

/-- `Woven offset left entries out`: inserting the entries into `left`, a text that begins at byte
`offset` of the source, gives `out`. -/
inductive Woven : Nat → String → List Entry → String → Prop
  | done (offset : Nat) (left : String) : Woven offset left [] left
  | step {offset : Nat} {before after out : String} {entry : Entry} {rest : List Entry}
      (reached : entry.position = offset + before.utf8ByteSize)
      (woven : Woven entry.position after rest out) :
      Woven offset (before ++ after) (entry :: rest) (before ++ entry.text ++ out)

/-- With cuts at all positions the copying comes to an end. -/
theorem exists_weave {source : String} (seen left : String) {entries : List Entry}
    (split : source = seen ++ left) (increasing : Increasing entries)
    (above : ∀ e ∈ entries, seen.utf8ByteSize ≤ e.position)
    (cuts : ∀ e ∈ entries, (⟨e.position⟩ : String.Pos.Raw).IsValid source) :
    ∃ out, weave source seen.utf8ByteSize entries = some out ∧
      Woven seen.utf8ByteSize left entries out := by
  induction entries generalizing seen left with
  | nil =>
    refine ⟨left, ?_, .done _ left⟩
    exact (slice?_eq_some_iff _ _ _ _).2 ⟨seen, "", by simp [split], rfl, by simp [split]⟩
  | cons entry rest ih =>
    obtain ⟨later, restIncreasing⟩ := increasing_cons.1 increasing
    have cut := cuts entry List.mem_cons_self
    have fits : entry.position ≤ source.utf8ByteSize := cut.le_utf8ByteSize
    obtain ⟨before, after, hleft, reached⟩ :=
      split_at_cut (split ▸ cut) (above entry List.mem_cons_self)
    have size : (seen ++ before).utf8ByteSize = entry.position := by simp [reached]
    have copied : slice? source seen.utf8ByteSize entry.position = some before :=
      (slice?_eq_some_iff _ _ _ _).2
        ⟨seen, after, by rw [split, hleft, String.append_assoc], rfl, reached.symm⟩
    obtain ⟨out, tail, woven⟩ := ih (seen ++ before) after
      (by rw [split, hleft, String.append_assoc]) restIncreasing
      (fun e inRest => size ▸ Nat.le_of_lt (later e inRest))
      (fun e inRest => cuts e (List.mem_cons_of_mem entry inRest))
    rw [size] at tail woven
    refine ⟨before ++ entry.text ++ out, ?_, hleft ▸ .step reached woven⟩
    simp only [weave, Nat.min_eq_left fits, copied, tail]
    rfl

/-- The copying comes to an end only if there is a cut at each position, a position past the end
counting as the end. -/
theorem cuts_of_weave {source out : String} {cursor : Nat} {entries : List Entry}
    (woven : weave source cursor entries = some out) :
    ∀ e ∈ entries, IsCut source (min e.position source.utf8ByteSize) := by
  induction entries generalizing cursor out with
  | nil => nofun
  | cons entry rest ih =>
    obtain ⟨before, copied, woven⟩ := Option.bind_eq_some_iff.1 woven
    obtain ⟨after, later, _⟩ := Option.bind_eq_some_iff.1 woven
    exact List.forall_mem_cons.2 ⟨(cuts_of_slice? copied).2, ih later⟩

private theorem size_of_woven {offset : Nat} {left out : String} {entries : List Entry}
    (woven : Woven offset left entries out) :
    out.utf8ByteSize = left.utf8ByteSize + lengths entries := by
  induction woven with
  | done offset left => rfl
  | step reached woven ih =>
    simp only [String.utf8ByteSize_append, lengths_cons, ih]
    omega

/-- Each source byte stands where the translation says. `seen` and `written` are the parts of the
source and of the output that the copying has left behind. -/
theorem byte_of_woven {offset p : Nat} {left out : String} {entries : List Entry}
    (woven : Woven offset left entries out) (seen written : String) (total : Nat)
    (seenSize : seen.utf8ByteSize = offset) (writtenSize : written.utf8ByteSize = offset + total)
    (reached : offset ≤ p) :
    (bytes (written ++ out))[forward total p entries]? = (bytes (seen ++ left))[p]? := by
  induction woven generalizing seen written total with
  | done offset left =>
    rw [forward, byte_append_right written left (by omega), byte_append_right seen left (by omega)]
    congr 1
    omega
  | @step offset before after out entry rest position woven ih =>
    rw [forward]
    split
    · -- The byte lies in the copied slice before the entry.
      rw [byte_append_right written _ (by omega), byte_append_right seen _ (by omega),
        byte_append_left _ out (by rw [String.utf8ByteSize_append]; omega),
        byte_append_left before entry.text (by omega), byte_append_left before after (by omega)]
      congr 1
      omega
    · have tail := ih (seen ++ before) (written ++ before ++ entry.text)
        (total + entry.text.utf8ByteSize) (by simp [seenSize, position])
        (by simp [writtenSize, position]; omega) (by omega)
      simpa only [String.append_assoc] using tail

/-- Each inserted text stands at the place that its record gives. -/
theorem slice?_of_woven {offset : Nat} {left out : String} {entries : List Entry}
    (woven : Woven offset left entries out) (written : String) (total : Nat)
    (writtenSize : written.utf8ByteSize = offset + total) {r : Insertion}
    (member : r ∈ placed total entries) :
    slice? (written ++ out) r.span.start r.span.stop = some r.text := by
  induction woven generalizing written total with
  | done => cases member
  | @step offset before after out entry rest position woven ih =>
    rw [placed_cons] at member
    rcases List.mem_cons.1 member with rfl | inRest
    · refine (slice?_eq_some_iff _ _ _ _).2 ⟨written ++ before, out, ?_, ?_, rfl⟩
      · simp only [record, String.append_assoc]
      · simp only [record, Insertion.span, String.utf8ByteSize_append]
        omega
    · have tail := ih (written ++ before ++ entry.text) (total + entry.text.utf8ByteSize)
        (by simp [writtenSize, position]; omega) inRest
      simpa only [String.append_assoc] using tail

/-- Deleting the places of all records from the output leaves the source. -/
theorem bytesOutside_of_woven {offset : Nat} {left out : String} {entries : List Entry}
    (woven : Woven offset left entries out) (increasing : Increasing entries) (total : Nat) :
    bytesOutside ((placed total entries).map Insertion.span) (offset + total) (bytes out) =
      bytes left := by
  induction woven generalizing total with
  | done offset left => exact bytesOutside_nil _ _
  | @step offset before after out entry rest position woven ih =>
    obtain ⟨later, restIncreasing⟩ := increasing_cons.1 increasing
    have spans : (placed total (entry :: rest)).map Insertion.span =
        (record total entry).span ::
          (placed (total + entry.text.utf8ByteSize) rest).map Insertion.span := rfl
    have start : (record total entry).span.start = entry.position + total := rfl
    have stop : (record total entry).span.stop =
        entry.position + total + entry.text.utf8ByteSize := rfl
    have copied : bytesOutside ((placed total (entry :: rest)).map Insertion.span)
        (offset + total) (bytes before) = bytes before := by
      apply bytesOutside_of_apart
      intro s member
      obtain ⟨r, recorded, rfl⟩ := List.mem_map.1 member
      have behind : entry.position + total ≤ r.span.start := head_le_generated increasing recorded
      rw [length_bytes]
      omega
    have inserted : bytesOutside ((placed total (entry :: rest)).map Insertion.span)
        (offset + total + before.utf8ByteSize) (bytes entry.text) = [] := by
      rw [spans]
      apply bytesOutside_of_covered List.mem_cons_self
      · omega
      · rw [length_bytes]
        omega
    have tail : bytesOutside ((placed total (entry :: rest)).map Insertion.span)
        (entry.position + (total + entry.text.utf8ByteSize)) (bytes out) = bytes after := by
      rw [← ih restIncreasing (total + entry.text.utf8ByteSize), spans]
      apply bytesOutside_congr
      intro i low _
      have passed : (record total entry).span.contains i = false := by
        rw [Bool.eq_false_iff]
        intro held
        have := ((record total entry).span.contains_iff i).1 held
        omega
      rw [List.any_cons, passed, Bool.false_or]
    rw [bytes_append, bytes_append, bytesOutside_append, bytesOutside_append, copied,
      List.length_append, length_bytes, length_bytes, inserted, List.append_nil, bytes_append]
    have place : offset + total + (before.utf8ByteSize + entry.text.utf8ByteSize) =
        entry.position + (total + entry.text.utf8ByteSize) := by omega
    rw [place, tail]

/-- The output is the source with the texts of the ledger inserted, and the translations say so. -/
structure Assembled (ledger : Ledger) (source output : String) : Prop where
  size : output.utf8ByteSize = source.utf8ByteSize + ledger.inserted
  /-- Every source byte stands at the generated offset of its own offset. -/
  copies : ∀ p, (bytes output)[ledger.toGenerated p]? = (bytes source)[p]?
  /-- Every text occupies exactly the place that its record gives. -/
  occupies : ∀ r ∈ ledger.insertions, slice? output r.span.start r.span.stop = some r.text
  /-- Every output byte is the source byte that it comes from, or it lies in an inserted text. -/
  origin : ∀ g < output.utf8ByteSize,
    (∃ o < source.utf8ByteSize, ledger.toOriginal g = .exactly o ∧
      (bytes output)[g]? = (bytes source)[o]?) ∨
    ∃ r, ledger.HoldsAlone r g ∧ ledger.toOriginal g = .anchored r.position
  deletion : bytesOutside (ledger.insertions.map Insertion.span) 0 (bytes output) = bytes source

theorem assembled_of_woven {ledger : Ledger} (increasing : Increasing ledger.entries)
    {source output : String} (woven : Woven 0 source ledger.entries output) :
    Assembled ledger source output := by
  have copies (p : Nat) : (bytes output)[ledger.toGenerated p]? = (bytes source)[p]? := by
    have byte := byte_of_woven woven "" "" 0 rfl rfl (Nat.zero_le p)
    rw [String.empty_append, String.empty_append] at byte
    rw [toGenerated_eq_forward]
    exact byte
  refine ⟨?_, copies, ?_, ?_, bytesOutside_of_woven woven increasing 0⟩
  · rw [inserted_eq_lengths]
    exact size_of_woven woven
  · intro r member
    have place := slice?_of_woven woven "" 0 rfl member
    rwa [String.empty_append] at place
  · intro g inside
    rcases heldByNone_or_exists increasing g with free | ⟨r, alone⟩
    · obtain ⟨o, back, forth⟩ := toOriginal_of_heldByNone increasing free
      have byte := copies o
      rw [forth] at byte
      have sourceInside : o < (bytes source).length := by
        apply Nat.lt_of_not_le
        intro past
        rw [List.getElem?_eq_none past, List.getElem?_eq_none_iff, length_bytes] at byte
        omega
      exact Or.inl ⟨o, by rwa [length_bytes] at sourceInside, back, byte⟩
    · exact Or.inr ⟨r, alone, toOriginal_of_holdsAlone increasing alone⟩

/-- Copying succeeds whenever every insertion stands at a cut of the source, and what it gives is
what the translations describe. -/
theorem assemble?_agrees (calls : List (Nat × String)) (source : String)
    (cuts : ∀ r ∈ (ofCalls calls).insertions, (⟨r.position⟩ : String.Pos.Raw).IsValid source) :
    ∃ output, (ofCalls calls).assemble? source = some output ∧
      Assembled (ofCalls calls) source output := by
  have increasing := increasing_ofCalls calls
  have entryCuts : ∀ e ∈ (ofCalls calls).entries,
      (⟨e.position⟩ : String.Pos.Raw).IsValid source := by
    intro e member
    have position : e.position ∈ (ofCalls calls).insertions.map (·.position) := by
      rw [insertions, positions_placed]
      exact List.mem_map_of_mem member
    obtain ⟨r, recorded, same⟩ := List.mem_map.1 position
    rw [← same]
    exact cuts r recorded
  obtain ⟨output, assembled, woven⟩ := exists_weave "" source (String.empty_append).symm increasing
    (fun e _ => Nat.zero_le e.position) entryCuts
  exact ⟨output, assembled, assembled_of_woven increasing woven⟩

/-- Insertions out of order, at the start, after a character of two bytes and at the end. -/
theorem assemble?_agrees_at_both_ends :
    (∀ r ∈ (ofCalls [(3, "xy"), (0, "ß"), (2, "z"), (2, "no")]).insertions,
      (⟨r.position⟩ : String.Pos.Raw).IsValid "éa") ∧
    ∃ output, (ofCalls [(3, "xy"), (0, "ß"), (2, "z"), (2, "no")]).assemble? "éa" = some output ∧
      Assembled (ofCalls [(3, "xy"), (0, "ß"), (2, "z"), (2, "no")]) "éa" output :=
  have cuts : ∀ r ∈ (ofCalls [(3, "xy"), (0, "ß"), (2, "z"), (2, "no")]).insertions,
      (⟨r.position⟩ : String.Pos.Raw).IsValid "éa" := by decide
  ⟨cuts, assemble?_agrees _ _ cuts⟩

end Ledger

end TypedSvelte
