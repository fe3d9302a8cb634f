import TypedSvelte.Proofs.Markup.Placement

/-!
# What the readers of tags leave behind

A reader goes on from a place of the source, notes errors and returns parts of the document.
`Scan.Leads` says what is true of every reader's moves: it goes forwards, drops no error, and notes
errors only at spans of the source. What it returns is placed between the two places.
-/
namespace TypedSvelte.Markup.Scan

variable {source : String} {s t u : Scan} {start : Nat}

theorem Reaches.isCut (here : (ofSource source).Reaches s) : IsCut source s.pos := by
  obtain ⟨before, rest, pos⟩ := here
  change source.toList = before ++ s.rest at rest
  refine isCut_iff.2 ⟨String.ofList before, String.ofList s.rest, ?_, ?_⟩
  · rw [← String.ofList_append, ← rest, String.ofList_toList]
  · rw [utf8ByteSize_ofList, pos]
    exact (Nat.zero_add _).symm

theorem Reaches.fits (here : (ofSource source).Reaches s) (onward : s.Reaches t) :
    Span.Fits source ⟨s.pos, t.pos⟩ :=
  ⟨onward.pos_le, here.isCut, (here.trans onward).isCut⟩

/-- Fewer characters are left at a later place, and the offset is larger. -/
theorem Reaches.pos_lt (reached : s.Reaches t) (shorter : t.rest.length < s.rest.length) :
    s.pos < t.pos := by
  obtain ⟨passed, rest, pos⟩ := reached
  cases passed with
  | nil =>
    rw [rest] at shorter
    exact absurd shorter (Nat.lt_irrefl _)
  | cons c cs =>
    have positive : 0 < byteSize (c :: cs) := Nat.add_pos_left c.utf8Size_pos _
    omega

/-- The place lies in the source, at or behind the offset `start`, where something began. -/
structure Since (source : String) (start : Nat) (s : Scan) : Prop where
  here : (ofSource source).Reaches s
  span : Span.Fits source ⟨start, s.pos⟩

theorem Reaches.since (here : (ofSource source).Reaches s) (onward : s.Reaches t) :
    Since source s.pos t :=
  ⟨here.trans onward, here.fits onward⟩

theorem Since.onward (since : Since source start s) (onward : s.Reaches t) :
    Since source start t where
  here := since.here.trans onward
  span := since.span.extend onward.pos_le (since.here.trans onward).isCut

/-- The second place is reached from the first one with all errors kept, and errors are noted only
at spans of the source. -/
structure Leads (source : String) (s t : Scan) : Prop where
  reached : s.Reaches t
  kept : s.errors <:+ t.errors
  noted : (∀ e ∈ s.errors, e.span.Fits source) → ∀ e ∈ t.errors, e.span.Fits source

theorem Leads.refl (s : Scan) : s.Leads source s := ⟨.refl s, List.suffix_rfl, id⟩

theorem Leads.trans (first : s.Leads source t) (second : t.Leads source u) : s.Leads source u :=
  ⟨first.reached.trans second.reached, first.kept.trans second.kept, second.noted ∘ first.noted⟩

theorem leads_skip (s : Scan) (n : Nat) : s.Leads source (s.skip n) :=
  ⟨s.reaches_skip n, List.suffix_rfl, id⟩

private theorem leads_skipBlank (s : Scan) : s.Leads source s.skipBlank := s.leads_skip _

theorem leads_skipPast (s : Scan) (c : Char) : s.Leads source (s.skipPast c) := by
  unfold skipPast
  split
  · exact s.leads_skip _
  · exact s.leads_skip _

theorem leads_word (s : Scan) : s.Leads source s.word.2 := s.leads_skip _

/-- An error reaches from where something began to where it was noticed. -/
theorem leads_fail (since : Since source start s) (kind : ErrorKind) :
    s.Leads source (s.fail kind start) where
  reached := (Reaches.refl s).fail kind start
  kept := List.suffix_cons _ _
  noted fit e member := by
    rcases List.mem_cons.1 member with rfl | old
    · change Span.Fits source ⟨start, max s.pos start⟩
      rw [Nat.max_eq_left since.span.ordered]
      exact since.span
    · exact fit e old

theorem errors_fail_ne (s : Scan) (kind : ErrorKind) (start : Nat) :
    (s.fail kind start).errors ≠ [] :=
  List.cons_ne_nil _ _

theorem leads_expression (since : Since source start s) :
    s.Leads source (s.expression start).2 := by
  unfold expression
  split
  · exact s.leads_skip _
  · exact (s.leads_skip _).trans (leads_fail (since.onward s.reaches_skipAll) _)

/-- Without an expression there is an error. -/
theorem errors_expression_ne (absent : (s.expression start).1 = none) :
    (s.expression start).2.errors ≠ [] := by
  unfold expression at absent ⊢
  split at absent
  · cases absent
  · exact errors_fail_ne _ _ _

theorem leads_quotedParts (since : Since source start s) (quote : Char) :
    s.Leads source (s.quotedParts quote start).2 := by
  fun_induction quotedParts s quote start with
  | case1 s ended => exact leads_fail since _
  | case2 s c rest ahead closes => exact s.leads_skip 1
  | case3 s c rest ahead closes brace shorter more ih =>
    have opened := since.here.since (s.reaches_skip 1)
    have part := (s.leads_skip 1).trans (leads_expression opened)
    exact part.trans (ih (since.onward part.reached))
  | case4 s c rest ahead closes brace n shorter more ih =>
    exact (s.leads_skip n).trans (ih (since.onward (s.reaches_skip n)))

private theorem leads_attributeValue (here : (ofSource source).Reaches s) :
    s.Leads source s.attributeValue.2 := by
  have opened := here.since (s.reaches_skip 1)
  unfold attributeValue
  split
  · exact (s.leads_skip 1).trans (leads_quotedParts opened _)
  · exact (s.leads_skip 1).trans (leads_quotedParts opened _)
  · exact (s.leads_skip 1).trans (leads_expression opened)
  · exact s.leads_skip _

private theorem leads_optionalValue (here : (ofSource source).Reaches s) :
    s.Leads source s.optionalValue.2 := by
  unfold optionalValue
  split
  · have sign : s.Leads source (s.skipBlank.skip 1).skipBlank :=
      (s.leads_skipBlank.trans (leads_skip _ 1)).trans (leads_skipBlank _)
    exact sign.trans (leads_attributeValue (here.trans sign.reached))
  · exact .refl s

private theorem leads_readAttribute (here : (ofSource source).Reaches s) :
    s.Leads source s.readAttribute.2 := by
  unfold readAttribute
  split
  · exact (s.leads_skip 1).trans (leads_expression (here.since (s.reaches_skip 1)))
  · split
    · exact s.leads_skip 1
    · exact (s.leads_skip _).trans (leads_optionalValue (here.skip _))

theorem leads_attributes (here : (ofSource source).Reaches s) :
    s.Leads source s.attributes.2 := by
  fun_induction attributes s with
  | case1 s blank ended => exact s.leads_skipBlank
  | case2 s blank ended atEnd => exact s.leads_skipBlank
  | case3 s blank ended atEnd shorter more ih =>
    have read := s.leads_skipBlank.trans (leads_readAttribute (here.trans s.reaches_skipBlank))
    exact read.trans (ih (here.trans read.reached))

theorem inside_of_reaches {later : Nat} (onward : s.Reaches t) (bound : u.pos ≤ later) :
    Span.Inside ⟨t.pos, u.pos⟩ ⟨s.pos, later⟩ :=
  ⟨onward.pos_le, bound⟩

theorem placed_rawText (here : (ofSource source).Reaches s) (n : Nat) :
    (s.rawText n).Placed source ⟨s.pos, (s.skip n).pos⟩ where
  slice := here.slice? (List.take_append_drop n s.rest).symm rfl
  inside := Span.Inside.refl _

theorem placed_expression {e : Expression} (here : (ofSource source).Reaches s)
    (found : (s.expression start).1 = some e) :
    e.Placed source ⟨s.pos, (s.expression start).2.pos⟩ := by
  unfold expression at found ⊢
  split at found
  · rename_i n _
    cases Option.some.inj found
    have slice := here.slice? (v := s.skip n) (List.take_append_drop n s.rest).symm rfl
    apply (Expression.placed_ofText slice).mono
    refine ⟨Nat.le_refl _, ?_⟩
    have shorter := byteSize_le_of_prefix
      (List.take_prefix_take_left (Nat.le_succ n) : s.rest.take n <+: s.rest.take (n + 1))
    exact Nat.add_le_add_left shorter _
  · cases found

/-- The one part that an expression makes. -/
theorem placed_expressionPart {part : ValuePart} (here : (ofSource source).Reaches s)
    (member : part ∈ (s.expression start).1.toList.map .expression) :
    part.Placed source ⟨s.pos, (s.expression start).2.pos⟩ := by
  obtain ⟨e, found, rfl⟩ := List.mem_map.1 member
  exact placed_expression here (Option.mem_toList.1 found)

private theorem placed_quotedParts {part : ValuePart} {quote : Char} (since : Since source start s)
    (member : part ∈ (s.quotedParts quote start).1) :
    part.Placed source ⟨s.pos, (s.quotedParts quote start).2.pos⟩ := by
  fun_induction quotedParts s quote start with
  | case1 s ended => cases member
  | case2 s c rest ahead closes => cases member
  | case3 s c rest ahead closes brace shorter more ih =>
    have opened := since.here.since (s.reaches_skip 1)
    have toPart := (s.reaches_skip 1).trans (reaches_expression _ s.pos)
    have toEnd := reaches_quotedParts ((s.skip 1).expression s.pos).2 quote start
    rcases List.mem_append.1 member with first | later
    · exact (placed_expressionPart opened.here first).mono
        (inside_of_reaches (s.reaches_skip 1) toEnd.pos_le)
    · exact (ih (since.onward toPart) later).mono (inside_of_reaches toPart (Nat.le_refl _))
  | case4 s c rest ahead closes brace n shorter more ih =>
    have toEnd := reaches_quotedParts (s.skip n) quote start
    rcases List.mem_cons.1 member with rfl | later
    · exact RawText.Placed.mono (placed_rawText since.here n)
        (inside_of_reaches (.refl s) toEnd.pos_le)
    · exact (ih (since.onward (s.reaches_skip n)) later).mono
        (inside_of_reaches (s.reaches_skip n) (Nat.le_refl _))

private theorem placed_attributeValue {part : ValuePart} (here : (ofSource source).Reaches s)
    (member : part ∈ s.attributeValue.1) :
    part.Placed source ⟨s.pos, s.attributeValue.2.pos⟩ := by
  have opened := here.since (s.reaches_skip 1)
  have behind {later : Nat} : Span.Inside ⟨(s.skip 1).pos, later⟩ ⟨s.pos, later⟩ :=
    ⟨(s.reaches_skip 1).pos_le, Nat.le_refl _⟩
  unfold attributeValue at member ⊢
  split at member
  · exact (placed_quotedParts opened member).mono behind
  · exact (placed_quotedParts opened member).mono behind
  · exact (placed_expressionPart opened.here member).mono behind
  · cases List.mem_singleton.1 member
    exact placed_rawText here _

private theorem placed_optionalValue {part : ValuePart} (here : (ofSource source).Reaches s)
    (member : part ∈ s.optionalValue.1) :
    part.Placed source ⟨s.pos, s.optionalValue.2.pos⟩ := by
  unfold optionalValue at member ⊢
  split at member
  · rename_i sign
    rw [if_pos sign]
    have toValue := (s.reaches_skipBlank.skip 1).trans (reaches_skipBlank _)
    exact (placed_attributeValue (here.trans toValue) member).mono
      (inside_of_reaches toValue (Nat.le_refl _))
  · cases member

private theorem placed_namedAttribute {span parent : Span} {name : String} {value : List ValuePart}
    (lies : span.Lies source parent) (placed : ∀ part ∈ value, part.Placed source span) :
    (namedAttribute span name value).Placed source parent := by
  unfold namedAttribute
  dsimp only
  split
  · refine .directive lies fun e kept => ?_
    exact placed _ (mem_of_soleExpression? kept)
  · exact .plain lies placed

private theorem placed_readAttribute {a : Attribute} (here : (ofSource source).Reaches s)
    (read : s.readAttribute.1 = some a) :
    a.Placed source ⟨s.pos, s.readAttribute.2.pos⟩ := by
  unfold readAttribute at read ⊢
  split at read
  · rename_i brace
    rw [if_pos brace]
    obtain ⟨e, found, braced⟩ := Option.bind_eq_some_iff.1 read
    have placed := (placed_expression (here.skip 1) found).mono
      (inside_of_reaches (s.reaches_skip 1) (Nat.le_refl _))
    unfold bracedAttribute? at braced
    split at braced
    · obtain ⟨rest, after, rfl⟩ := Option.map_eq_some_iff.1 braced
      exact .spread (placed.of_hasPart (.slice after))
    · cases Option.some.inj braced
      exact .shorthand placed
  · rename_i brace
    rw [if_neg brace]
    split at read
    · cases read
    · rename_i n _
      cases Option.some.inj read
      have toName := s.reaches_skip (n + 1)
      have toEnd := toName.trans (reaches_optionalValue _)
      apply placed_namedAttribute ⟨here.fits toEnd, Span.Inside.refl _⟩
      intro part member
      exact (placed_optionalValue (here.trans toName) member).mono
        (inside_of_reaches toName (Nat.le_refl _))

theorem placed_attributes {a : Attribute} (here : (ofSource source).Reaches s)
    (member : a ∈ s.attributes.1) : a.Placed source ⟨s.pos, s.attributes.2.pos⟩ := by
  fun_induction attributes s with
  | case1 s blank ended => cases member
  | case2 s blank ended atEnd => cases member
  | case3 s blank ended atEnd shorter more ih =>
    have toBlank := s.reaches_skipBlank
    have toAttribute := toBlank.trans (reaches_readAttribute _)
    have toEnd := reaches_attributes blank.readAttribute.2
    rcases List.mem_append.1 member with first | later
    · exact (placed_readAttribute (here.trans toBlank) (Option.mem_toList.1 first)).mono
        (inside_of_reaches toBlank toEnd.pos_le)
    · exact (ih (here.trans toAttribute) later).mono
        (inside_of_reaches toAttribute (Nat.le_refl _))

end TypedSvelte.Markup.Scan
