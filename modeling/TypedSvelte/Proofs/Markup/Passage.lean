import TypedSvelte.Markup.Parse
import TypedSvelte.Proofs.Text.Bytes

/-!
# Places reached

Every reader of markup moves by passing characters, so that a byte offset it records is the size of
the text before that place. `Scan.Reaches` says this of two places, and the lemmas below say it of
each reader; nothing else about the readers is needed to locate what they recorded.
-/
namespace TypedSvelte

namespace Markup.Scan

/-- `t` is the place after some of the characters that are left at `s`. -/
def Reaches (s t : Scan) : Prop :=
  ∃ passed, s.rest = passed ++ t.rest ∧ t.pos = s.pos + byteSize passed

theorem Reaches.refl (s : Scan) : s.Reaches s := ⟨[], rfl, rfl⟩

theorem Reaches.trans {s t u : Scan} (first : s.Reaches t) (second : t.Reaches u) :
    s.Reaches u := by
  obtain ⟨passed, rest, pos⟩ := first
  obtain ⟨more, moreRest, morePos⟩ := second
  refine ⟨passed ++ more, ?_, ?_⟩
  · rw [rest, moreRest, List.append_assoc]
  · rw [morePos, pos, byteSize_append, Nat.add_assoc]

theorem Reaches.fail {s t : Scan} (reached : s.Reaches t) (kind : ErrorKind) (start : Nat) :
    s.Reaches (t.fail kind start) :=
  reached

theorem Reaches.skip {s t : Scan} (reached : s.Reaches t) (n : Nat) : s.Reaches (t.skip n) :=
  reached.trans ⟨t.rest.take n, (List.take_append_drop n t.rest).symm, rfl⟩

theorem Reaches.pos_le {s t : Scan} (reached : s.Reaches t) : s.pos ≤ t.pos := by
  obtain ⟨passed, _, pos⟩ := reached
  rw [pos]
  exact Nat.le_add_right _ _

theorem reaches_skip (s : Scan) (n : Nat) : s.Reaches (s.skip n) := (Reaches.refl s).skip n

theorem reaches_skipBlank (s : Scan) : s.Reaches s.skipBlank := s.reaches_skip _

theorem reaches_skipAll (s : Scan) : s.Reaches s.skipAll := s.reaches_skip _

theorem reaches_skipPast (s : Scan) (c : Char) : s.Reaches (s.skipPast c) := by
  unfold skipPast
  split
  · exact s.reaches_skip _
  · exact s.reaches_skipAll

/-- What is passed between two places of a source is a slice of it. -/
theorem Reaches.slice? {source : String} {u v : Scan} {passed : List Char}
    (reached : (ofSource source).Reaches u) (ahead : u.rest = passed ++ v.rest)
    (pos : v.pos = u.pos + byteSize passed) :
    TypedSvelte.slice? source u.pos v.pos = some (String.ofList passed) := by
  obtain ⟨before, rest, start⟩ := reached
  change source.toList = before ++ u.rest at rest
  apply (slice?_eq_some_iff _ _ _ _).2
  refine ⟨String.ofList before, String.ofList v.rest, ?_, ?_, ?_⟩
  · rw [← String.ofList_toList (s := source), rest, ahead, ← List.append_assoc, String.ofList_append,
      String.ofList_append]
  · rw [utf8ByteSize_ofList, start]
    exact (Nat.zero_add _).symm
  · rw [utf8ByteSize_ofList, pos]

/-- What is passed from a character on begins with it. -/
theorem passes_head {s t : Scan} {c : Char} {rest : List Char} (ahead : s.rest = c :: rest)
    (reached : (s.skip 1).Reaches t) :
    ∃ passed, s.rest = c :: passed ++ t.rest ∧ t.pos = s.pos + byteSize (c :: passed) := by
  obtain ⟨passed, restEq, posEq⟩ := reached
  rw [rest_skip, ahead] at restEq
  refine ⟨passed, ?_, ?_⟩
  · rw [ahead, List.cons_append]
    exact congrArg (c :: ·) restEq
  · rw [posEq]
    change s.pos + byteSize (s.rest.take 1) + byteSize passed = _
    rw [ahead]
    change s.pos + (c.utf8Size + 0) + byteSize passed = s.pos + (c.utf8Size + byteSize passed)
    omega

/-- What is passed up to a character begins with all that lies before that character. -/
theorem skipPast_passes {s : Scan} {pattern : List Char} {c : Char}
    (ahead : pattern <+: s.rest) (absent : c ∉ pattern) :
    ∃ passed, s.rest = passed ++ (s.skipPast c).rest ∧
      (s.skipPast c).pos = s.pos + byteSize passed ∧ pattern <+: passed := by
  unfold skipPast
  cases found : s.rest.findIdx? (· == c) with
  | none =>
    refine ⟨s.rest.take s.rest.length, (List.take_append_drop _ _).symm, rfl, ?_⟩
    rw [List.take_length]
    exact ahead
  | some n =>
    refine ⟨s.rest.take (n + 1), (List.take_append_drop _ _).symm, rfl, ?_⟩
    obtain ⟨inside, isC, _⟩ := List.findIdx?_eq_some_iff_getElem.1 found
    refine List.prefix_take_iff.2 ⟨ahead, ?_⟩
    apply Nat.le_of_not_lt
    intro short
    have member : s.rest[n] ∈ pattern := by
      have within : n < pattern.length := by omega
      rw [← ahead.getElem within]
      exact List.getElem_mem within
    rw [eq_of_beq isC] at member
    exact absent member

theorem reaches_word (s : Scan) : s.Reaches s.word.2 := s.reaches_skip _

theorem reaches_expression (s : Scan) (opening : Nat) : s.Reaches (s.expression opening).2 := by
  unfold expression
  split
  · exact s.reaches_skip _
  · exact s.reaches_skipAll.fail _ _

theorem reaches_quotedParts (s : Scan) (quote : Char) (opening : Nat) :
    s.Reaches (s.quotedParts quote opening).2 := by
  fun_induction quotedParts s quote opening with
  | case1 s ended => exact (Reaches.refl s).fail _ _
  | case2 s c rest ahead closes => exact s.reaches_skip 1
  | case3 s c rest ahead closes brace shorter more ih =>
    exact ((s.reaches_skip 1).trans (reaches_expression _ _)).trans ih
  | case4 s c rest ahead closes brace n shorter more ih => exact (s.reaches_skip n).trans ih

private theorem reaches_attributeValue (s : Scan) : s.Reaches s.attributeValue.2 := by
  unfold attributeValue
  split
  · exact (s.reaches_skip 1).trans (reaches_quotedParts _ _ _)
  · exact (s.reaches_skip 1).trans (reaches_quotedParts _ _ _)
  · exact (s.reaches_skip 1).trans (reaches_expression _ _)
  · exact s.reaches_skip _

theorem reaches_optionalValue (s : Scan) : s.Reaches s.optionalValue.2 := by
  unfold optionalValue
  split
  · have sign := s.reaches_skipBlank.skip 1
    exact (sign.trans (reaches_skipBlank _)).trans (reaches_attributeValue _)
  · exact Reaches.refl s

theorem reaches_readAttribute (s : Scan) : s.Reaches s.readAttribute.2 := by
  unfold readAttribute
  split
  · exact (s.reaches_skip 1).trans (reaches_expression _ _)
  · split
    · exact s.reaches_skip 1
    · rename_i n _
      exact (s.reaches_skip (n + 1)).trans (reaches_optionalValue _)

theorem reaches_attributes (s : Scan) : s.Reaches s.attributes.2 := by
  fun_induction attributes s with
  | case1 s here ended => exact s.reaches_skipBlank
  | case2 s here ended atEnd => exact s.reaches_skipBlank
  | case3 s here ended atEnd shorter more ih =>
    exact (s.reaches_skipBlank.trans (reaches_readAttribute _)).trans ih

end Markup.Scan

namespace Markup.Reading

open Scan

theorem reaches_tagEnd (s : Scan) (name : String) (start : Nat) :
    s.Reaches (tagEnd s name start).2 := by
  unfold tagEnd
  split
  · exact s.reaches_skip 2
  · split
    · exact s.reaches_skip 1
    · exact (Reaches.refl s).fail _ _

theorem reaches_continuation (s : Scan) : s.Reaches (continuation s).2 :=
  ((s.reaches_skip 2).trans (reaches_word _)).trans (reaches_expression _ _)

theorem reaches_closeTag (s : Scan) (name : String) (start : Nat) :
    s.Reaches (closeTag s name start) := by
  unfold closeTag
  dsimp only
  split
  · split
    · exact s.reaches_skipPast '>'
    · exact (Reaches.refl s).fail _ _
  · exact (Reaches.refl s).fail _ _

theorem reaches_closeBlock (s : Scan) (block : String) (start : Nat) :
    s.Reaches (closeBlock s block start) := by
  unfold closeBlock
  split
  · exact s.reaches_skipPast '}'
  · exact (Reaches.refl s).fail _ _

/-- The place at which the closing of a construct leaves the reading. -/
def Closing.scan : Closing → Scan
  | .goesOn scan _ => scan
  | .closed scan _ => scan

private theorem reaches_closeAwait (s : Scan) (a : Awaiting) : s.Reaches (closeAwait s a).scan := by
  unfold closeAwait
  split
  · exact reaches_continuation s
  · exact reaches_closeBlock s _ _

theorem reaches_close (s : Scan) (nodes : List Node) (construct : Construct) :
    s.Reaches (close s nodes construct).scan := by
  cases construct with
  | element start name attributes => exact reaches_closeTag s _ _
  | arm start condition earlier =>
    simp only [close]
    split
    · split
      · exact reaches_continuation s
      · split
        · exact reaches_continuation s
        · exact (reaches_continuation s).fail _ _
    · exact reaches_closeBlock s _ _
  | otherwise arms => exact reaches_closeBlock s _ _
  | eachBody start header =>
    simp only [close]
    split
    · exact reaches_continuation s
    · exact reaches_closeBlock s _ _
  | eachFallback start header body => exact reaches_closeBlock s _ _
  | awaitPending start expression => exact reaches_closeAwait s _
  | awaitBranch done branch binding => exact reaches_closeAwait s _
  | key start expression => exact reaches_closeBlock s _ _

end Markup.Reading

end TypedSvelte
