import TypedSvelte.Markup.Parse
import TypedSvelte.Proofs.Markup.PlainHeaders

/-!
# Rendered parts

What the readers do at the parts of canonical texts: each passes the part and notes no error
(`Scan.Lands`), and what it returns is what was rendered.
-/
namespace TypedSvelte.Markup

namespace Scan

variable {s t u : Scan} {passed rest : List Char}

/-- `next` stands before `rest`, and no error has been noted since `s`. -/
structure Lands (s next : Scan) (rest : List Char) : Prop where
  ahead : next.rest = rest
  errors : next.errors = s.errors

theorem Lands.trans (first : s.Lands t passed) (second : t.Lands u rest) : s.Lands u rest :=
  ⟨second.ahead, second.errors.trans first.errors⟩

theorem lands_skip {n : Nat} (ahead : s.rest = passed ++ rest) (size : n = passed.length) :
    s.Lands (s.skip n) rest :=
  ⟨by rw [rest_skip, ahead, size, List.drop_left], rfl⟩

theorem lands_skipBlank (ahead : s.rest = passed ++ rest)
    (blank : ∀ c ∈ passed, isBlank c = true)
    (first : EndsRun isBlank rest) : s.Lands s.skipBlank rest := by
  refine lands_skip ahead ?_
  rw [count, ahead, takeWhile_until blank first]

private theorem skipPast_eq {c : Char} (ahead : s.rest = passed ++ c :: rest)
    (free : ∀ d ∈ passed, d ≠ c) : s.skipPast c = s.skip (passed.length + 1) := by
  have found : s.rest.findIdx? (· == c) = some passed.length := by
    rw [ahead, List.findIdx?_append, List.findIdx?_eq_none_iff.2, Option.none_or]
    · simp [List.findIdx?_cons]
    · simpa using free
  unfold skipPast
  rw [found]

private theorem lands_skipPast {c : Char} (ahead : s.rest = passed ++ c :: rest)
    (free : ∀ d ∈ passed, d ≠ c) : s.Lands (s.skipPast c) rest := by
  rw [skipPast_eq ahead free]
  exact @lands_skip s (passed ++ [c]) rest _ (by simp [ahead]) (by simp)

theorem lands_word (chars : ∀ d ∈ passed, isIdentChar d = true) (ahead : s.rest = passed ++ rest)
    (ends : EndsWord rest) : s.word.1 = String.ofList passed ∧ s.Lands s.word.2 rest := by
  have size : s.count isIdentChar = passed.length := by
    rw [count, ahead, takeWhile_until chars ends]
  refine ⟨?_, lands_skip ahead size⟩
  unfold word
  dsimp only
  rw [size, ahead, List.take_left]

theorem expression_eq {opening : Nat} (found : closingBrace? s.rest = some passed.length)
    (ahead : s.rest = passed ++ '}' :: rest) :
    s.expression opening =
      (some (Expression.ofText s.pos passed), s.skip (passed.length + 1)) := by
  unfold expression
  rw [found]
  dsimp only
  rw [ahead, List.take_left]

theorem lands_expression {opening : Nat} (plain : ∀ d ∈ passed, isHeaderChar d = true)
    (ahead : s.rest = passed ++ '}' :: rest) :
    (s.expression opening).1 = some (Expression.ofText s.pos passed) ∧
      s.Lands (s.expression opening).2 rest := by
  rw [expression_eq (by rw [ahead, closingBrace?_header plain]) ahead]
  exact ⟨rfl, @lands_skip s (passed ++ ['}']) rest _ (by simp [ahead]) (by simp)⟩

theorem bare_ofText {e : Ident} {offset : Nat} (lead : passed = [] ∨ passed = [' ']) :
    (Expression.ofText offset (passed ++ e.val)).bare = Ident.expression e := by
  have leadBlank : ∀ c ∈ passed, isBlank c = true := by
    rcases lead with rfl | rfl
    · exact nofun
    · exact isBlank_space
  have trimmed := @trim_ident e passed [] leadBlank nofun
  rw [List.append_nil] at trimmed
  unfold Expression.ofText
  rw [trimmed]
  rfl

theorem isEmpty_of_bare {x : Expression} {e : Ident} (bare : x.bare = Ident.expression e) :
    x.isEmpty = false := by
  have filled : (Ident.expression e).isEmpty = false := by
    simp [Ident.expression, Expression.isEmpty, e.ne_nil]
  exact (congrArg Expression.isEmpty bare).trans filled

theorem atWord_of_word {before word : String} (ahead : s.rest = before.toList ++ word.toList ++ rest)
    (ends : EndsWord rest) : s.atWord before word = true := by
  have behind : s.rest.drop (before.length + word.length) = rest := by
    rw [ahead, ← String.length_toList, ← String.length_toList, ← List.length_append, List.drop_left]
  unfold atWord startsWith
  rw [behind, String.toList_append, ahead, Bool.and_eq_true]
  refine ⟨List.isPrefixOf_iff_prefix.2 (List.prefix_append _ _), ?_⟩
  cases rest with
  | nil => rfl
  | cons c rest => simp [ends c rfl]

/-- The end of a block is no continuation. -/
theorem atWord_of_end {word : String} (ahead : s.rest = '{' :: '/' :: rest) :
    s.atWord "\x7b:" word = false := by
  unfold atWord startsWith
  rw [String.toList_append, ahead]
  rfl

private theorem lands_quotedEnd {opening : Nat} (ahead : s.rest = '"' :: rest) :
    (s.quotedParts '"' opening).1 = [] ∧ s.Lands (s.quotedParts '"' opening).2 rest := by
  have closes : s.quotedParts '"' opening = ([], s.skip 1) := by
    rw [quotedParts]
    split
    · rename_i ended
      rw [ended] at ahead
      cases ahead
    · rename_i c cs same
      rw [ahead] at same
      cases same
      exact if_pos rfl
  rw [closes]
  exact ⟨rfl, @lands_skip s ['"'] rest 1 ahead rfl⟩

private theorem lands_quotedText {value : ValueText} {opening : Nat}
    (ahead : s.rest = value.val ++ '"' :: rest) :
    (s.quotedParts '"' opening).1.map ValuePart.bare = [(TreeValue.text value).part] ∧
      s.Lands (s.quotedParts '"' opening).2 rest := by
  obtain ⟨text, valid⟩ := value
  simp only [isValueText, Bool.and_eq_true, Bool.not_eq_true', List.all_eq_true, bne_iff_ne] at valid
  obtain ⟨filled, plain⟩ := valid
  dsimp only at ahead
  cases text with
  | nil => cases filled
  | cons c cs =>
    have size : 1 + (s.rest.tail.takeWhile fun d => d != '"' && d != '{').length =
        (c :: cs).length := by
      rw [ahead, List.cons_append, List.tail_cons, takeWhile_until]
      · exact Nat.add_comm _ _
      · intro d member
        simpa using plain d (.tail _ member)
      · exact endsRun_cons rfl
    have next : s.Lands (s.skip (c :: cs).length) ('"' :: rest) := lands_skip ahead rfl
    have reads : s.quotedParts '"' opening =
        (.text (s.rawText (c :: cs).length) ::
          ((s.skip (c :: cs).length).quotedParts '"' opening).1,
        ((s.skip (c :: cs).length).quotedParts '"' opening).2) := by
      obtain ⟨noQuote, noBrace⟩ := plain c (.head _)
      rw [quotedParts]
      split
      · rename_i ended
        rw [ended] at ahead
        cases ahead
      · rename_i d ds same
        rw [ahead] at same
        cases same
        rw [if_neg (by simpa using noQuote), if_neg (by simpa using noBrace)]
        dsimp only
        rw [size]
    obtain ⟨nothing, ended⟩ := @lands_quotedEnd _ _ opening next.ahead
    rw [reads, nothing]
    refine ⟨?_, next.trans ended⟩
    simp only [List.map_cons, List.map_nil, ValuePart.bare, RawText.bare, rawText, TreeValue.part]
    rw [ahead, List.take_left]

private theorem lands_attributeValue {value : TreeValue} (ahead : s.rest = value.render ++ rest) :
    s.attributeValue.1.map ValuePart.bare = [value.part] ∧ s.Lands s.attributeValue.2 rest := by
  cases value with
  | text value =>
    have quote : s.rest = '"' :: (value.val ++ '"' :: rest) := by
      rw [ahead]
      simp [TreeValue.render]
    have next := @lands_skip s ['"'] _ 1 quote rfl
    have reads : s.attributeValue = (s.skip 1).quotedParts '"' s.pos := by
      unfold attributeValue
      rw [quote]
      rfl
    obtain ⟨part, ended⟩ := @lands_quotedText _ _ value s.pos next.ahead
    rw [reads]
    exact ⟨part, next.trans ended⟩
  | expression value =>
    have brace : s.rest = '{' :: (value.val ++ '}' :: rest) := by
      rw [ahead]
      simp [TreeValue.render]
    have next := @lands_skip s ['{'] _ 1 brace rfl
    have reads : s.attributeValue = (((s.skip 1).expression s.pos).1.toList.map .expression,
        ((s.skip 1).expression s.pos).2) := by
      unfold attributeValue
      rw [brace]
      rfl
    obtain ⟨part, ended⟩ :=
      @lands_expression _ _ _ s.pos isHeaderChar_ident next.ahead
    rw [reads, part]
    refine ⟨?_, next.trans ended⟩
    have bare := @bare_ofText [] value (s.skip 1).pos (.inl rfl)
    simp only [Option.toList_some, List.map_cons, List.map_nil, ValuePart.bare, TreeValue.part]
    rw [← bare, List.nil_append]

private theorem attributeName_cases (name : AttributeName) : ∃ c cs, name.val = c :: cs ∧
    (∀ d ∈ name.val, endsAttributeName d = false) ∧ c ≠ '{' ∧ isDirectiveName name.val = false := by
  obtain ⟨chars, valid⟩ := name
  cases chars with
  | nil => cases valid
  | cons c cs =>
    simp only [isAttributeName, Bool.and_eq_true, List.all_eq_true, Bool.not_eq_true',
      bne_iff_ne] at valid
    exact ⟨c, cs, rfl, valid.1.1, valid.1.2, valid.2⟩

/-- The name of a plain attribute names no directive. -/
theorem bare_namedAttribute {a : TreeAttribute} {span : Span} {value : List ValuePart}
    (bare : value.map ValuePart.bare = [a.value.part]) :
    (namedAttribute span (String.ofList a.name.val) value).bare = a.attribute := by
  obtain ⟨_, _, _, _, _, plain⟩ := attributeName_cases a.name
  have unknown : (if (a.name.val.takeWhile (· != ':')).length < a.name.val.length then
      DirectiveKind.ofWord? (String.ofList (a.name.val.takeWhile (· != ':'))) else none) = none := by
    by_cases colon : a.name.val.contains ':' = true
    · rw [isDirectiveName, colon, Bool.true_and, Option.isSome_eq_false_iff,
        Option.isNone_iff_eq_none] at plain
      rw [plain, ite_self]
    · have noColon : ∀ d ∈ a.name.val, (d != ':') = true := by
        intro d member
        rw [bne_iff_ne]
        rintro rfl
        exact colon (List.contains_iff_mem.2 member)
      have whole := @takeWhile_until _ _ [] noColon nofun
      rw [List.append_nil] at whole
      rw [whole, if_neg (Nat.lt_irrefl _)]
  unfold namedAttribute
  dsimp only
  rw [String.toList_ofList, unknown]
  simp only [Attribute.bare, bare]
  rfl

private theorem lands_readAttribute {a : TreeAttribute}
    (ahead : s.rest = a.name.val ++ '=' :: (a.value.render ++ rest)) :
    s.readAttribute.1.map Attribute.bare = some a.attribute ∧ s.Lands s.readAttribute.2 rest := by
  obtain ⟨c, cs, name, chars, noBrace, _⟩ := attributeName_cases a.name
  have size : s.count (fun c => !endsAttributeName c) = cs.length + 1 := by
    rw [count, ahead, takeWhile_until, name, List.length_cons]
    · intro d member
      rw [chars d member]
      rfl
    · exact endsRun_cons rfl
  have named : s.Lands (s.skip (cs.length + 1)) ('=' :: (a.value.render ++ rest)) :=
    lands_skip ahead (by rw [name, List.length_cons])
  have equals : s.Lands (s.skip (cs.length + 1)).skipBlank ('=' :: (a.value.render ++ rest)) :=
    named.trans (@lands_skipBlank _ [] _ named.ahead nofun (endsRun_cons rfl))
  have value : s.Lands ((s.skip (cs.length + 1)).skipBlank.skip 1).skipBlank
      (a.value.render ++ rest) := by
    have next := @lands_skip _ ['='] _ 1 equals.ahead rfl
    refine (equals.trans next).trans (@lands_skipBlank _ [] _ next.ahead nofun ?_)
    cases a.value with
    | text => exact endsRun_cons rfl
    | expression => exact endsRun_cons rfl
  have optional : (s.skip (cs.length + 1)).optionalValue =
      ((s.skip (cs.length + 1)).skipBlank.skip 1).skipBlank.attributeValue := by
    unfold optionalValue
    rw [if_pos]
    simp [startsWith, equals.ahead]
  obtain ⟨part, ended⟩ := lands_attributeValue value.ahead
  have reads : s.readAttribute = (some (s.attributeNamed (cs.length + 1)).1,
      (s.attributeNamed (cs.length + 1)).2) := by
    unfold readAttribute
    rw [if_neg, size]
    simp [startsWith, ahead, name, Ne.symm noBrace]
  rw [reads]
  unfold attributeNamed
  dsimp only
  rw [optional]
  refine ⟨?_, value.trans ended⟩
  have text : s.rest.take (cs.length + 1) = a.name.val := by
    rw [ahead, ← List.length_cons (a := c), ← name, List.take_left]
  rw [text, Option.map_some, bare_namedAttribute part]

/-- A tag may end without an attribute. -/
theorem attributes_eq_nil (ahead : s.rest = '>' :: rest) : s.attributes = ([], s) := by
  have here : s.skipBlank = s := by
    unfold skipBlank count
    rw [ahead]
    rfl
  have filled : s.rest ≠ [] := by simp [ahead]
  have closes : (s.startsWith ">" || s.startsWith "/>") = true := by
    simp [startsWith, ahead]
  rw [attributes]
  dsimp only
  rw [here, dif_neg filled, if_pos closes]

theorem lands_attributes {attributes : List TreeAttribute}
    (ahead : s.rest = attributes.flatMap TreeAttribute.render ++ '>' :: rest) :
    s.attributes.1.map Attribute.bare = attributes.map TreeAttribute.attribute ∧
      s.Lands s.attributes.2 ('>' :: rest) := by
  induction attributes generalizing s with
  | nil =>
    rw [attributes_eq_nil ahead]
    exact ⟨rfl, ahead, rfl⟩
  | cons a more ih =>
    obtain ⟨c, cs, name, chars, _⟩ := attributeName_cases a.name
    have plain := chars c (name ▸ .head _)
    have here : s.Lands s.skipBlank (a.name.val ++ '=' ::
        (a.value.render ++ (more.flatMap TreeAttribute.render ++ '>' :: rest))) := by
      refine @lands_skipBlank s [' '] _ ?_ isBlank_space ?_
      · rw [ahead]
        simp [TreeAttribute.render]
      · rw [name]
        simp only [endsAttributeName, Bool.or_eq_false_iff] at plain
        exact endsRun_cons plain.1.1.1.1.1
    obtain ⟨first, read⟩ := lands_readAttribute here.ahead
    obtain ⟨others, ended⟩ := ih read.ahead
    have goesOn : s.attributes = (s.skipBlank.readAttribute.1.toList ++
        s.skipBlank.readAttribute.2.attributes.1, s.skipBlank.readAttribute.2.attributes.2) := by
      have filled : s.skipBlank.rest ≠ [] := by simp [here.ahead, name]
      have opens : ¬(s.skipBlank.startsWith ">" || s.skipBlank.startsWith "/>") = true := by
        simp only [endsAttributeName, Bool.or_eq_false_iff, beq_eq_false_iff_ne] at plain
        simp [startsWith, here.ahead, name, Ne.symm plain.1.1.1.2, Ne.symm plain.1.1.2]
      rw [attributes, dif_neg filled, if_neg opens]
    obtain ⟨_, found, same⟩ := Option.map_eq_some_iff.1 first
    rw [goesOn, found]
    refine ⟨?_, (here.trans read).trans ended⟩
    rw [Option.toList_some, List.singleton_append, List.map_cons, same, others, List.map_cons]

end Scan

namespace Reading

open Scan

variable {s : Scan} {rest : List Char} {start : Nat}

theorem tagName_cases (name : TagName) : ∃ c cs, name.val = c :: cs ∧ c.isLower = true ∧
    (∀ d ∈ name.val, d.isLower = true ∨ d.isDigit = true) ∧
    isVoid (String.ofList name.val) = false ∧
    String.ofList name.val ≠ "script" ∧ String.ofList name.val ≠ "style" := by
  obtain ⟨chars, valid⟩ := name
  cases chars with
  | nil => cases valid
  | cons c cs =>
    simp only [isTagName, Bool.and_eq_true, List.all_eq_true, Bool.or_eq_true, Bool.not_eq_true',
      bne_iff_ne] at valid
    obtain ⟨⟨⟨⟨lower, chars⟩, notVoid⟩, notScript⟩, notStyle⟩ := valid
    exact ⟨c, cs, rfl, lower, List.forall_mem_cons.2 ⟨.inl lower, chars⟩, notVoid, notScript,
      notStyle⟩

/-- The characters of the name of an element stand neither for white space nor for the end of a
tag. -/
theorem tagName_char {name : TagName} {d : Char} (member : d ∈ name.val) :
    isBlank d = false ∧ d ≠ '/' ∧ d ≠ '>' := by
  obtain ⟨_, _, _, _, chars, _⟩ := tagName_cases name
  have ident : isIdentChar d = true := by
    simp only [isIdentChar, Char.isAlphanum, Bool.or_eq_true]
    exact .inl (.inl ((chars d member).imp isAlpha_of_isLower id))
  refine ⟨isBlank_of_isIdentChar ident, ?_, ?_⟩
  · rintro rfl
    cases ident
  · rintro rfl
    cases ident

theorem tagEnd_open {name : String} (ahead : s.rest = '>' :: rest) :
    tagEnd s name start = (false, s.skip 1) := by
  unfold tagEnd
  rw [if_neg, if_pos]
  · simp [startsWith, ahead]
  · simp [startsWith, ahead]

variable {name : List Char}

/-- The name that is read in a closing tag. -/
theorem takeWhile_closeTag (ahead : s.rest = "</".toList ++ name ++ '>' :: rest)
    (chars : ∀ d ∈ name, isBlank d = false ∧ d ≠ '>') :
    (s.rest.drop 2).takeWhile (fun c => !(isBlank c || c == '>')) = name := by
  have dropped : s.rest.drop 2 = name ++ '>' :: rest := by
    rw [ahead]
    rfl
  rw [dropped, takeWhile_until]
  · intro d member
    simp [chars d member]
  · exact endsRun_cons rfl

/-- A closing tag is passed by the element that has its name. -/
theorem closeTag_eq (ahead : s.rest = "</".toList ++ name ++ '>' :: rest)
    (chars : ∀ d ∈ name, isBlank d = false ∧ d ≠ '>') :
    closeTag s (String.ofList name) start = s.skip (("</".toList ++ name).length + 1) := by
  have begins : s.startsWith "</" = true := by simp [startsWith, ahead]
  unfold closeTag
  dsimp only
  rw [if_pos begins, takeWhile_closeTag ahead chars, if_pos (beq_self_eq_true _)]
  refine skipPast_eq ahead fun d member => ?_
  rcases List.mem_append.1 member with inMark | inName
  · rintro rfl
    simp at inMark
  · exact (chars d inName).2

theorem lands_closeTag {name : TagName} (ahead : s.rest = "</".toList ++ name.val ++ '>' :: rest) :
    s.Lands (closeTag s (String.ofList name.val) start) rest := by
  rw [closeTag_eq ahead fun d member => ⟨(tagName_char member).1, (tagName_char member).2.2⟩]
  exact @lands_skip s ("</".toList ++ name.val ++ ['>']) rest _ (by simp [ahead]) (by simp)

theorem lands_closeBlock {block : String} (word : isWord block.toList = true)
    (ahead : s.rest = "\x7b/".toList ++ block.toList ++ '}' :: rest) :
    s.Lands (closeBlock s block start) rest := by
  have ends : EndsWord ('}' :: rest) := endsRun_cons rfl
  unfold closeBlock
  rw [if_pos (atWord_of_word ahead ends)]
  refine lands_skipPast ahead fun d member => ?_
  obtain ⟨_, _, _, _, chars⟩ := isWord_iff.1 word
  rcases List.mem_append.1 member with inMark | inWord
  · rintro rfl
    simp at inMark
  · rintro rfl
    cases chars _ inWord

variable {word : String} {header : List Char}

theorem lands_continuation (isWord : isWord word.toList = true)
    (plain : ∀ d ∈ header, isHeaderChar d = true) (ends : EndsWord (header ++ '}' :: rest))
    (ahead : s.rest = "\x7b:".toList ++ word.toList ++ (header ++ '}' :: rest)) :
    (∃ offset, (continuation s).1 =
      (some (Expression.ofText offset header)).filter (!·.isEmpty)) ∧
      s.Lands (continuation s).2 rest := by
  obtain ⟨_, _, _, _, chars⟩ := isWord_iff.1 isWord
  have mark : s.Lands (s.skip 2) (word.toList ++ (header ++ '}' :: rest)) :=
    @lands_skip s "\x7b:".toList _ 2 (by rw [ahead, List.append_assoc]) rfl
  obtain ⟨_, behind⟩ := lands_word chars mark.ahead ends
  obtain ⟨text, ended⟩ := @lands_expression _ _ _ s.pos plain behind.ahead
  unfold continuation
  dsimp only
  rw [text]
  exact ⟨⟨_, rfl⟩, (mark.trans behind).trans ended⟩

theorem endsWord_binding {binding : Option Ident} :
    EndsWord (renderOptional " " binding "" ++ '}' :: rest) := by
  cases binding with
  | none => exact endsRun_cons rfl
  | some => exact endsRun_cons rfl

theorem bare_continuation {binding : Option Ident} (isWord : isWord word.toList = true)
    (ahead : s.rest =
      "\x7b:".toList ++ word.toList ++ (renderOptional " " binding "" ++ '}' :: rest)) :
    (continuation s).1.map Expression.bare = binding.map Ident.expression ∧
      s.Lands (continuation s).2 rest := by
  have plain := @isHeaderChar_optional " " "" binding (List.all_eq_true.1 (by decide))
    (List.all_eq_true.1 (by decide))
  obtain ⟨⟨offset, text⟩, ended⟩ := lands_continuation isWord plain endsWord_binding ahead
  refine ⟨?_, ended⟩
  rw [text]
  cases binding with
  | none => rfl
  | some e =>
    have chars : renderOptional " " (some e) "" = [' '] ++ e.val := by simp [renderOptional]
    have bare := @bare_ofText [' '] e offset (.inr rfl)
    rw [chars, Option.filter_some, isEmpty_of_bare bare, Option.map_some, ← bare]
    rfl

/-- The continuation `{:else}`. -/
theorem lands_else (ahead : s.rest = "\x7b:else\x7d".toList ++ rest) :
    s.atWord "\x7b:" "else" = true ∧ (continuation s).1 = none ∧
      s.Lands (continuation s).2 rest := by
  have whole : s.rest = "\x7b:".toList ++ "else".toList ++
      (renderOptional " " none "" ++ '}' :: rest) := by
    rw [ahead]
    simp [renderOptional]
  obtain ⟨nothing, lands⟩ := @bare_continuation _ _ "else" none (by decide) whole
  rw [Option.map_none, Option.map_eq_none_iff] at nothing
  exact ⟨atWord_of_word whole endsWord_binding, nothing, lands⟩

theorem nextBranch?_of_word {a : Awaiting} {branch : AwaitBranch} (lacks : a.lacks branch = true)
    (ends : EndsWord rest) (ahead : s.rest = "\x7b:".toList ++ branch.word.toList ++ rest) :
    nextBranch? s a = some branch := by
  have here := atWord_of_word ahead ends
  unfold nextBranch?
  cases branch with
  | then_ => rw [List.find?_cons_of_pos (by rw [here, lacks]; rfl)]
  | catch_ =>
    have notThen : s.atWord "\x7b:" AwaitBranch.then_.word = false := by
      simp [atWord, startsWith, ahead, AwaitBranch.word]
    rw [List.find?_cons_of_neg (by simp [notThen]),
      List.find?_cons_of_pos (by rw [here, lacks]; rfl)]

theorem nextBranch?_of_end {a : Awaiting} (ahead : s.rest = '{' :: '/' :: rest) :
    nextBranch? s a = none := by
  have nowhere (branch : AwaitBranch) : s.atWord "\x7b:" branch.word = false :=
    atWord_of_end ahead
  unfold nextBranch?
  simp [nowhere]

end Reading

end TypedSvelte.Markup
