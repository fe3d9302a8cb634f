import TypedSvelte.Proofs.Outcome
import TypedSvelte.Proofs.Script.ItemGaps
import TypedSvelte.Proofs.Text.Trimming
import TypedSvelte.Script.DocComment

/-!
# Documentation comments before items

An item is documented by the block comment directly before it, if that one begins with `/**`.
`hasDocType` does not read comments: it looks back from the item to the nearest `/**`, which may
belong to something else. `Misleads` lists the ways in which it does; everywhere else the answer is
that of the comment directly before the item (`hasDocType_iff_documented`).
-/
namespace TypedSvelte.Script

def docOpening : List Char := ['/', '*', '*']

def blockClosing : List Char := ['*', '/']

variable {source : String} {text front body behind before interior : List Char}
  {gap earlier : List Spacer} {start : Nat}

theorem lastDocComment?_eq_some_iff : lastDocComment? text = some body ↔
    ∃ front, trimEnd text = front ++ docOpening ++ body ++ blockClosing ∧
      ¬docOpening <:+: body := by
  have spec := @findText?_eq_some_iff docOpening.reverse
  have borderless : ∀ n < docOpening.reverse.length, 0 < n →
      ¬docOpening.reverse.drop n <+: docOpening.reverse := by decide
  unfold lastDocComment?
  constructor
  · intro found
    split at found
    · rename_i reversed backwards
      obtain ⟨n, search, same⟩ := Option.bind_eq_some_iff.1 found
      cases same
      obtain ⟨inside, others, rfl, absent, rfl⟩ := (spec nofun borderless).1 search
      rw [List.take_left]
      refine ⟨others.reverse, ?_, fun occurs => absent ?_⟩
      · rw [← List.reverse_reverse (trimEnd text), backwards]
        simp [docOpening, blockClosing]
      · exact List.reverse_infix.1 (by rwa [List.reverse_reverse])
    · cases found
  · rintro ⟨front, parts, absent⟩
    have backwards : (trimEnd text).reverse =
        '/' :: '*' :: (body.reverse ++ (docOpening.reverse ++ front.reverse)) := by
      rw [parts]
      simp [blockClosing]
    have search := (spec nofun borderless).2
      ⟨body.reverse, front.reverse, rfl, mt List.reverse_infix.1 absent, rfl⟩
    rw [backwards]
    refine Option.bind_eq_some_iff.2 ⟨_, search, ?_⟩
    rw [List.take_left, List.reverse_reverse]

def HasTypeTag (text : List Char) : Prop := ∃ tag ∈ docTags text, tag ∈ typeTags

instance (text : List Char) : Decidable (HasTypeTag text) :=
  inferInstanceAs (Decidable (∃ tag ∈ docTags text, tag ∈ typeTags))

/-- A tag that gives a type stands behind the last `/**` of the text. -/
def TaggedBehindLast (text : List Char) : Prop :=
  ∃ front behind, text = front ++ docOpening ++ behind ∧ ¬docOpening <:+: behind ∧
    HasTypeTag behind

private theorem hasDocType_iff (slice : slice? source 0 start = some (String.ofList text)) :
    hasDocType source start = true ↔
      ∃ commented, trimEnd text = commented ++ blockClosing ∧ TaggedBehindLast commented := by
  have answer : hasDocType source start = true ↔
      ∃ body, lastDocComment? text = some body ∧ HasTypeTag body := by
    unfold hasDocType HasTypeTag
    rw [slice, Option.getD_some, String.toList_ofList]
    cases lastDocComment? text with
    | none => simp
    | some body => simp
  rw [answer]
  simp only [lastDocComment?_eq_some_iff]
  constructor
  · rintro ⟨body, ⟨front, parts, last⟩, tagged⟩
    exact ⟨_, parts, front, body, rfl, last, tagged⟩
  · rintro ⟨_, parts, front, body, rfl, last, tagged⟩
    exact ⟨body, ⟨front, parts, last⟩, tagged⟩

theorem HasTypeTag.append (front : List Char) (tagged : HasTypeTag behind) :
    HasTypeTag (front ++ behind) := by
  obtain ⟨tag, member, gives⟩ := tagged
  refine ⟨tag, ?_, gives⟩
  induction front with
  | nil => exact member
  | cons c front ih =>
    rw [List.cons_append, docTags]
    split
    · exact .tail _ ih
    · exact ih

private theorem TaggedBehindLast.hasTypeTag (tagged : TaggedBehindLast text) : HasTypeTag text := by
  obtain ⟨front, behind, rfl, _, tag⟩ := tagged
  exact tag.append _

/-- An opening does not overlap with another one. -/
theorem opening_behind (same : docOpening ++ body = front ++ (docOpening ++ behind)) :
    body = behind ∨ docOpening ++ behind <:+ body := by
  match front with
  | [] => exact .inl (List.append_cancel_left same)
  | [_] => exact absurd (List.cons.inj (List.cons.inj same).2).1 (by decide)
  | [_, _] => exact absurd (List.cons.inj (List.cons.inj (List.cons.inj same).2).2).1 (by decide)
  | _ :: _ :: _ :: front =>
    exact .inr ⟨front, (List.cons.inj (List.cons.inj (List.cons.inj same).2).2).2.symm⟩

/-- The last opening is not before another one. -/
theorem last_opening {others : List Char} (last : ¬docOpening <:+: behind)
    (same : front ++ docOpening ++ body = others ++ docOpening ++ behind) :
    body = behind ∨ docOpening ++ behind <:+ body := by
  rw [List.append_assoc, List.append_assoc] at same
  obtain ⟨between, _, same⟩ | ⟨between, _, same⟩ := List.append_eq_append_iff.1 same
  · exact opening_behind same
  · obtain rfl | ⟨more, later⟩ := opening_behind same
    · exact .inl rfl
    · exact absurd ⟨more, body, (List.append_assoc ..).trans later⟩ last

private theorem taggedBehindLast_last (last : ¬docOpening <:+: body) :
    TaggedBehindLast (front ++ docOpening ++ body) ↔ HasTypeTag body := by
  refine ⟨?_, fun tagged => ⟨front, body, rfl, last, tagged⟩⟩
  rintro ⟨others, behind, same, absent, tagged⟩
  obtain rfl | ⟨more, later⟩ := last_opening absent same
  · exact tagged
  · exact absurd ⟨more, behind, (List.append_assoc ..).trans later⟩ last

private theorem taggedBehindLast_again (again : docOpening <:+: body) :
    TaggedBehindLast (front ++ docOpening ++ body) ↔ TaggedBehindLast body := by
  constructor
  · rintro ⟨others, behind, same, absent, tagged⟩
    obtain rfl | ⟨more, later⟩ := last_opening absent same
    · exact absurd again absent
    · exact ⟨more, behind, later.symm.trans (List.append_assoc ..).symm, absent, tagged⟩
  · rintro ⟨others, behind, rfl, absent, tagged⟩
    exact ⟨front ++ docOpening ++ others, behind, by simp, absent, tagged⟩

/-- The spacer is white space that trimming takes away. -/
def Spacer.isWhite : Spacer → Bool
  | blank c => isBlank c
  | _ => false

/-- What stands in the block comment that ends a gap, white space aside, and the gap before it. -/
def directComment? (gap : List Spacer) : Option (List Spacer × List Char) :=
  match gap.reverse.dropWhile Spacer.isWhite with
  | .block interior :: earlier => some (earlier.reverse, interior)
  | _ => none

/-- The comment that ends the gap begins with `/**`, and a tag in it gives a type. -/
def Documented (gap : List Spacer) : Prop :=
  ∃ earlier body, directComment? gap = some (earlier, '*' :: body) ∧ HasTypeTag body

/-- The nearest `/**` before an item does not belong to the comment directly before it, and that
makes a difference. -/
inductive Misleads (before : List Char) (gap : List Spacer) : Prop where
  /-- The documentation comment has a tag and another `/**`, with no tag behind it. -/
  | reopened {earlier : List Spacer} {body : List Char}
      (direct : directComment? gap = some (earlier, '*' :: body)) (again : docOpening <:+: body)
      (tagged : HasTypeTag body) (hidden : ¬TaggedBehindLast body)
  /-- The comment is no documentation comment, but a tag stands behind the nearest `/**` before its
  end, wherever that one is. -/
  | plain {earlier : List Spacer} {interior : List Char}
      (direct : directComment? gap = some (earlier, interior)) (plain : interior.head? ≠ some '*')
      (tagged : TaggedBehindLast (before ++ gapText earlier ++ '/' :: '*' :: interior))
  /-- There is no comment, but what stands before the item ends like one, and a tag stands behind
  the nearest `/**`. -/
  | absent {commented : List Char} (none : directComment? gap = none)
      (ends : trimEnd (before ++ gapText gap) = commented ++ blockClosing)
      (tagged : TaggedBehindLast commented)

private theorem trimEnd_of_directComment? (direct : directComment? gap = some (earlier, interior)) :
    trimEnd (before ++ gapText gap) =
      before ++ gapText earlier ++ '/' :: '*' :: interior ++ blockClosing := by
  unfold directComment? at direct
  split at direct
  · rename_i reversed ends
    cases direct
    have backwards := (gap.reverse.takeWhile_append_dropWhile (p := Spacer.isWhite)).symm
    have white : ∀ s ∈ gap.reverse.takeWhile Spacer.isWhite, s.isWhite = true :=
      fun s member => List.all_eq_true.1 List.all_takeWhile s member
    rw [ends] at backwards
    generalize gap.reverse.takeWhile Spacer.isWhite = trail at backwards white
    have parts : gap = reversed.reverse ++ .block interior :: trail.reverse := by
      rw [← List.reverse_inj, backwards]
      simp
    have blank : ∀ c ∈ gapText trail.reverse, isBlank c = true := by
      intro c member
      obtain ⟨s, inTrail, inside⟩ := List.mem_flatMap.1 member
      have isWhite := white s (List.mem_reverse.1 inTrail)
      cases s with
      | blank d =>
        cases List.mem_singleton.1 inside
        exact isWhite
      | line => cases isWhite
      | block => cases isWhite
    have whole : before ++ gapText gap =
        before ++ gapText reversed.reverse ++ '/' :: '*' :: interior ++ blockClosing ++
          gapText trail.reverse := by
      rw [parts]
      simp [gapText, Spacer.chars, blockClosing]
    rw [whole]
    apply trimEnd_append blank
    intro c last
    rw [List.getLast?_append] at last
    cases last
    decide
  · cases direct

/-- What decides about a comment directly before an item is the text up to its end. -/
theorem hasDocType_direct
    (slice : slice? source 0 start = some (String.ofList (before ++ gapText gap)))
    (direct : directComment? gap = some (earlier, interior)) :
    hasDocType source start = true ↔
      TaggedBehindLast (before ++ gapText earlier ++ '/' :: '*' :: interior) := by
  rw [hasDocType_iff slice, trimEnd_of_directComment? direct]
  constructor
  · rintro ⟨commented, same, tagged⟩
    rwa [List.append_cancel_right same]
  · exact fun tagged => ⟨_, rfl, tagged⟩

private theorem documented_iff (direct : directComment? gap = some (earlier, interior)) :
    Documented gap ↔ ∃ body, interior = '*' :: body ∧ HasTypeTag body := by
  unfold Documented
  rw [direct]
  constructor
  · rintro ⟨_, body, same, tagged⟩
    cases same
    exact ⟨body, rfl, tagged⟩
  · rintro ⟨body, rfl, tagged⟩
    exact ⟨earlier, body, rfl, tagged⟩

private theorem misleads_documented (direct : directComment? gap = some (earlier, '*' :: body)) :
    Misleads before gap ↔
      docOpening <:+: body ∧ HasTypeTag body ∧ ¬TaggedBehindLast body := by
  constructor
  · intro misleads
    cases misleads with
    | reopened direct' again tagged hidden =>
      cases direct.symm.trans direct'
      exact ⟨again, tagged, hidden⟩
    | plain direct' plain =>
      cases direct.symm.trans direct'
      exact absurd rfl plain
    | absent none => cases direct.symm.trans none
  · rintro ⟨again, tagged, hidden⟩
    exact .reopened direct again tagged hidden

private theorem misleads_plain (direct : directComment? gap = some (earlier, interior))
    (plain : interior.head? ≠ some '*') : Misleads before gap ↔
      TaggedBehindLast (before ++ gapText earlier ++ '/' :: '*' :: interior) := by
  constructor
  · intro misleads
    cases misleads with
    | reopened direct' =>
      cases direct.symm.trans direct'
      exact absurd rfl plain
    | plain direct' _ tagged =>
      cases direct.symm.trans direct'
      exact tagged
    | absent none => cases direct.symm.trans none
  · exact .plain direct plain

private theorem misleads_absent (none : directComment? gap = none) : Misleads before gap ↔
    ∃ commented, trimEnd (before ++ gapText gap) = commented ++ blockClosing ∧
      TaggedBehindLast commented := by
  constructor
  · intro misleads
    cases misleads with
    | reopened direct => cases none.symm.trans direct
    | plain direct => cases none.symm.trans direct
    | absent _ ends tagged => exact ⟨_, ends, tagged⟩
  · rintro ⟨commented, ends, tagged⟩
    exact .absent none ends tagged

/-- The answer for an item is that of the comment directly before it, unless the nearest `/**`
misleads. -/
theorem hasDocType_iff_documented_iff
    (slice : slice? source 0 start = some (String.ofList (before ++ gapText gap))) :
    (hasDocType source start = true ↔ Documented gap) ↔ ¬Misleads before gap := by
  cases direct : directComment? gap with
  | none =>
    have undocumented : ¬Documented gap := by
      rintro ⟨_, _, found, _⟩
      cases direct.symm.trans found
    rw [misleads_absent direct, ← hasDocType_iff slice, iff_false_right undocumented]
  | some found =>
    obtain ⟨earlier, interior⟩ := found
    have answer := hasDocType_direct slice direct
    have documented := documented_iff direct
    by_cases plain : interior.head? = some '*'
    · obtain ⟨body, rfl⟩ := List.head?_eq_some_iff.1 plain
      have opening : before ++ gapText earlier ++ '/' :: '*' :: '*' :: body =
          before ++ gapText earlier ++ docOpening ++ body := by
        simp [docOpening]
      have own : (∃ others, '*' :: body = '*' :: others ∧ HasTypeTag others) ↔ HasTypeTag body := by
        simp
      rw [opening] at answer
      rw [answer, documented, own, misleads_documented direct]
      by_cases again : docOpening <:+: body
      · rw [taggedBehindLast_again again]
        refine ⟨fun same misled => misled.2.2 (same.2 misled.2.1), fun leads => ?_⟩
        refine ⟨TaggedBehindLast.hasTypeTag, fun tagged => ?_⟩
        by_contra hidden
        exact leads ⟨again, tagged, hidden⟩
      · rw [taggedBehindLast_last again]
        exact iff_of_true Iff.rfl fun misled => again misled.1
    · have undocumented : ¬Documented gap := by
        rw [documented]
        rintro ⟨body, rfl, _⟩
        exact plain rfl
      rw [misleads_plain direct plain, ← answer, iff_false_right undocumented]

theorem GapBefore.slice? {earlier : List Item} {item : Item}
    (stands : GapBefore source earlier item before gap) :
    TypedSvelte.slice? source 0 (item.startIn source) =
      some (String.ofList (before ++ gapText gap)) := by
  obtain ⟨rest, parts⟩ := stands.parts
  refine (slice?_eq_some_iff ..).2 ⟨"", String.ofList rest, ?_, rfl, ?_⟩
  · rw [← String.ofList_toList (s := source), parts, ← List.append_assoc, String.ofList_append]
    rfl
  · rw [utf8ByteSize_ofList, stands.ends, Nat.zero_add]

/-- The second of two items has the gap before it that lies between their spans. -/
theorem exists_gapBefore {typed : Bool} {a b : Span} {rest : List Char}
    (checked : (parse typed source).toOption.any (·.items.map (·.span) == [a, b]) = true)
    (proper : ∀ s ∈ gap, s.IsProper) (parts : source.toList = before ++ (gapText gap ++ rest))
    (begins : byteSize before = byteSize (markOf source.toList) + a.stop)
    (ends : byteSize (before ++ gapText gap) = byteSize (markOf source.toList) + b.start) :
    ∃ outline first item, parse typed source = .ok outline ∧ outline.items = [first, item] ∧
      GapBefore source [first] item before gap := by
  obtain ⟨outline, read, spans⟩ := exists_ok_of_check checked
  obtain ⟨first, _, items, rfl, others⟩ := List.map_eq_cons_iff.1 (eq_of_beq spans)
  obtain ⟨item, _, rfl, rfl, none⟩ := List.map_eq_cons_iff.1 others
  cases List.map_eq_nil_iff.1 none
  exact ⟨outline, first, item, read, items, proper, ⟨rest, parts⟩, begins, ends⟩

/-- Every item of a script that is accepted has a gap before it, and it is taken for documented
exactly as the comment at the end of that gap says, unless the nearest `/**` misleads. -/
theorem hasDocType_iff_documented {typed : Bool} {outline : Outline} {earlier later : List Item}
    {item : Item} (read : parse typed source = .ok outline)
    (here : outline.items = earlier ++ item :: later) :
    (∃ before gap, GapBefore source earlier item before gap) ∧
      ∀ before gap, GapBefore source earlier item before gap →
        ((hasDocType source (item.startIn source) = true ↔ Documented gap) ↔
          ¬Misleads before gap) :=
  ⟨gapBefore_of_parse read here, fun _ _ stands => hasDocType_iff_documented_iff stands.slice?⟩

/-- The comment of an exported variable gives its type. -/
theorem hasDocType_iff_documented_type :
    let source := "let a;\n/** @param a */ /** @type \x7bX\x7d */\nexport const b = a;"
    ∃ outline first item before gap, parse false source = .ok outline ∧
      outline.items = [first, item] ∧ GapBefore source [first] item before gap ∧
      Documented gap ∧ ¬Misleads before gap ∧
      hasDocType source (item.startIn source) = true := by
  intro source
  let body := " @type \x7bX\x7d ".toList
  let earlier : List Spacer := [.blank '\n', .block "* @param a ".toList, .blank ' ']
  let gap : List Spacer := earlier ++ [.block ('*' :: body), .blank '\n']
  have checked : (parse false source).toOption.any (·.items.map (·.span) == [⟨0, 6⟩, ⟨40, 59⟩]) =
      true := by
    decide +kernel
  obtain ⟨outline, first, item, read, items, stands⟩ := exists_gapBefore checked
    (by decide : ∀ s ∈ gap, s.IsProper)
    (by decide : source.toList = "let a;".toList ++ (gapText gap ++ "export const b = a;".toList))
    (by decide) (by decide)
  have direct : directComment? gap = some (earlier, '*' :: body) := by decide
  have documented : Documented gap := ⟨earlier, body, direct, by decide⟩
  have leads : ¬Misleads "let a;".toList gap := by
    rw [misleads_documented direct]
    exact fun misled => absurd misled.1 (by decide)
  have here : outline.items = [first] ++ item :: [] := items
  have answer := (hasDocType_iff_documented read here).2 "let a;".toList gap stands
  exact ⟨outline, first, item, _, gap, read, items, stands, documented, leads,
    (answer.2 leads).2 documented⟩

/-- The tag of a variable's comment is taken for one of the next variable, which has a plain
comment. -/
theorem plain_comment_overlooked :
    let source := "/** @type \x7bX\x7d */\nlet a = 1;\n/* plain */\nexport const b = 1;"
    ∃ outline first item before gap, parse false source = .ok outline ∧
      outline.items = [first, item] ∧ GapBefore source [first] item before gap ∧
      directComment? gap = some ([.blank '\n'], " plain ".toList) ∧
      hasDocType source (item.startIn source) = true ∧ ¬Documented gap := by
  intro source
  let before := "/** @type \x7bX\x7d */\nlet a = 1;".toList
  let gap : List Spacer := [.blank '\n', .block " plain ".toList, .blank '\n']
  have checked : (parse false source).toOption.any (·.items.map (·.span) == [⟨17, 27⟩, ⟨40, 59⟩]) =
      true := by
    decide +kernel
  obtain ⟨outline, first, item, read, items, stands⟩ := exists_gapBefore checked
    (by decide : ∀ s ∈ gap, s.IsProper)
    (by decide : source.toList = before ++ (gapText gap ++ "export const b = 1;".toList))
    (by decide) (by decide)
  have direct : directComment? gap = some ([.blank '\n'], " plain ".toList) := by decide
  have overlooked : hasDocType source (item.startIn source) = true := by
    rw [← stands.ends]
    decide +kernel
  refine ⟨outline, first, item, before, gap, read, items, stands, direct, overlooked, ?_⟩
  rw [documented_iff direct]
  rintro ⟨body, same, _⟩
  exact absurd (List.cons.inj same).1 (by decide)

end TypedSvelte.Script
