import TypedSvelte.Proofs.Markup.ExpressionTexts

/-!
# Phrases of headers

A phrase is a text whose brackets are matched and which begins no string, template literal or
comment that it does not end. Before white space it is lexed as if it stood alone, so the tokens
outside of the brackets of a `Clause`, two phrases with a word between them, are those of its parts
(`Clause.topLevelTokens_eq`). The word is found where it stands, unless it occurs in the first
phrase already.
-/
namespace TypedSvelte.Markup

variable {c : Char} {text rest lead core trail cs : List Char} {ts us : List Token} {t : Token}
  {stack behind : List Bracket} {depth offset d n : Nat} {word : String}

/-- The open brackets behind a token, the innermost first; none if the token closes another bracket
than the innermost one. -/
def bracketsAfter (stack : List Bracket) : TokenKind → Option (List Bracket)
  | .opening bracket => some (bracket :: stack)
  | .closing bracket => if stack.head? = some bracket then some stack.tail else none
  | _ => some stack

/-- The open brackets behind the tokens, the innermost first; none if one of them closes another
bracket than the innermost one. -/
def bracketsBehind (stack : List Bracket) (ts : List Token) : Option (List Bracket) :=
  ts.foldlM (fun stack t => bracketsAfter stack t.kind) stack

theorem bracketsBehind_cons :
    bracketsBehind stack (t :: ts) =
      (bracketsAfter stack t.kind).bind (bracketsBehind · ts) :=
  List.foldlM_cons ..

private theorem bracesAfter_of_brackets {kind : TokenKind} (after : bracketsAfter stack kind = some behind) :
    bracesAfter (stack.count .brace) kind = some (behind.count .brace) := by
  unfold bracketsAfter at after
  split at after
  · rename_i bracket
    cases after
    cases bracket <;> simp [bracesAfter]
  · rename_i bracket
    obtain ⟨innermost, same⟩ := Option.ite_none_right_eq_some.1 after
    cases same
    obtain ⟨outer, rfl⟩ := List.head?_eq_some_iff.1 innermost
    cases bracket <;> simp [bracesAfter]
  · rename_i notOpening notClosing
    cases after
    cases kind with
    | opening bracket => exact absurd rfl (notOpening bracket)
    | closing bracket => exact absurd rfl (notClosing bracket)
    | ident | number | string | template | comment | comma | punct => rfl

/-- Where brackets are matched, so are braces. -/
theorem bracesBehind_of_brackets (matched : bracketsBehind stack ts = some behind) :
    bracesBehind (stack.count .brace) ts = some (behind.count .brace) := by
  induction ts generalizing stack with
  | nil =>
    cases matched
    rfl
  | cons t ts ih =>
    rw [bracketsBehind_cons] at matched
    obtain ⟨next, after, others⟩ := Option.bind_eq_some_iff.1 matched
    rw [bracesBehind_cons, bracesAfter_of_brackets after]
    exact ih others

/-- The number of brackets open behind a token, none being closed that is not open. -/
def depthBehind (depth : Nat) : TokenKind → Nat
  | .opening _ => depth + 1
  | .closing _ => depth - 1
  | _ => depth

/-- The token stands outside of brackets, or opens or closes an outermost group. -/
def isOutermost (depth : Nat) : TokenKind → Bool
  | .closing _ => depth - 1 == 0
  | _ => depth == 0

theorem outermost_cons : outermost depth (t :: ts) =
    (if isOutermost depth t.kind then [t] else []) ++ outermost (depthBehind depth t.kind) ts := by
  rw [outermost]
  cases t.kind <;> dsimp only [isOutermost, depthBehind] <;> split <;> simp [*]

private theorem depthBehind_of_brackets {kind : TokenKind}
    (after : bracketsAfter stack kind = some behind) :
    depthBehind stack.length kind = behind.length := by
  unfold bracketsAfter at after
  split at after
  · cases after
    rfl
  · cases (Option.ite_none_right_eq_some.1 after).2
    rw [List.length_tail]
    rfl
  · rename_i notOpening notClosing
    cases after
    cases kind with
    | opening bracket => exact absurd rfl (notOpening bracket)
    | closing bracket => exact absurd rfl (notClosing bracket)
    | ident | number | string | template | comment | comma | punct => rfl

/-- The tokens outside of brackets are those of both parts, if the first one matches its brackets. -/
theorem outermost_append (matched : bracketsBehind stack ts = some behind) :
    outermost stack.length (ts ++ us) =
      outermost stack.length ts ++ outermost behind.length us := by
  induction ts generalizing stack with
  | nil =>
    cases matched
    rfl
  | cons t ts ih =>
    rw [bracketsBehind_cons] at matched
    obtain ⟨next, after, others⟩ := Option.bind_eq_some_iff.1 matched
    rw [List.cons_append, outermost_cons, outermost_cons, depthBehind_of_brackets after, ih others,
      List.append_assoc]

/-- The token in a text that begins `more` bytes later. -/
def Token.later (more : Nat) (t : Token) : Token := { t with start := more + t.start }

private theorem tokensFrom_add (more : Nat) :
    tokensFrom (more + offset) text = (tokensFrom offset text).map (Token.later more) := by
  fun_induction tokensFrom offset text with
  | case1 offset =>
    rw [tokensFrom]
    rfl
  | case2 offset c rest length chars others kind read ih =>
    rw [tokensFrom_cons, read, Nat.add_assoc]
    exact congrArg (_ :: ·) ih
  | case3 offset c rest length chars others read ih =>
    rw [tokensFrom_cons, read, Nat.add_assoc]
    exact ih

theorem tokensFrom_eq (offset : Nat) (text : List Char) :
    tokensFrom offset text = (tokens text).map (Token.later offset) :=
  @tokensFrom_add _ 0 offset

private theorem bracketsBehind_map {f : Token → Token} (kinds : ∀ t, (f t).kind = t.kind) :
    bracketsBehind stack (ts.map f) = bracketsBehind stack ts := by
  induction ts generalizing stack with
  | nil => rfl
  | cons t ts ih =>
    rw [List.map_cons, bracketsBehind_cons, bracketsBehind_cons, kinds]
    exact congrArg _ (funext fun _ => ih)

theorem outermost_map {f : Token → Token} (kinds : ∀ t, (f t).kind = t.kind) :
    outermost depth (ts.map f) = (outermost depth ts).map f := by
  induction ts generalizing depth with
  | nil => rfl
  | cons t ts ih =>
    rw [List.map_cons, outermost_cons, outermost_cons, kinds, ih, List.map_append]
    split <;> rfl

theorem tokensFrom_blank (blank : ∀ c ∈ lead, isBlank c = true) :
    tokensFrom offset (lead ++ rest) = tokensFrom (offset + byteSize lead) rest := by
  induction lead generalizing offset with
  | nil => rfl
  | cons c cs ih =>
    obtain ⟨here, others⟩ := List.forall_mem_cons.1 blank
    rw [List.cons_append, tokensFrom_cons, lexeme_blank here]
    change tokensFrom (offset + (c.utf8Size + 0)) (cs ++ rest) = _
    rw [ih others, Nat.add_assoc]
    rfl

theorem mild_of_blank (blank : isBlank c = true) : Mild (c :: rest) := by
  rintro d ⟨⟩
  have ident : isIdentChar c = false := by
    rw [Bool.eq_false_iff]
    intro ident
    rw [isBlank_of_isIdentChar ident] at blank
    cases blank
  have other (mark : Char) (filled : isBlank mark = false) : c ≠ mark := by
    rintro rfl
    rw [filled] at blank
    cases blank
  refine isMild_iff.2 ⟨ident, ?_, other '/' rfl, other '*' rfl⟩
  simp only [isIdentChar, Bool.or_eq_false_iff] at ident
  simp [isNumberChar, ident, other '.' rfl]

/-- A part of a header: a text without white space around it that matches its brackets and begins
no string, template literal or comment that it does not end. -/
structure Phrase where
  chars : List Char
  filled : chars ≠ []
  trimmed : Trimmed chars
  closed : openEnded chars = false
  matched : bracketsBehind [] (tokens chars) = some []

abbrev Spacing := { cs : List Char // cs ≠ [] ∧ ∀ c ∈ cs, isBlank c = true }

/-- The text as an expression that begins at byte `offset`. -/
def placed (cs : List Char) (offset : Nat) : Expression :=
  ⟨⟨offset, offset + byteSize cs⟩, String.ofList cs⟩

/-- The text can be passed by the search for a closing brace, if a mild character comes after it. -/
def Passable (text : List Char) : Prop := ∀ rest, Mild rest → Skipped text rest

theorem skipped_blanks (blank : ∀ c ∈ lead, isBlank c = true) : Skipped lead rest := by
  induction lead with
  | nil => exact skipped_nil
  | cons c cs ih =>
    obtain ⟨here, others⟩ := List.forall_mem_cons.1 blank
    exact (skipped_blank here).append (ih others)

namespace Spacing

variable (spacing : Spacing)

theorem mild : Mild (spacing.val ++ rest) := by
  obtain ⟨_ | ⟨c, cs⟩, filled, blank⟩ := spacing
  · exact absurd rfl filled
  · exact mild_of_blank (blank c (.head _))

theorem endsWord : EndsWord (spacing.val ++ rest) :=
  fun d first => (isMild_iff.1 (spacing.mild d first)).1

end Spacing

namespace Phrase

variable (e : Phrase)

/-- The word is none of the identifiers outside of brackets. -/
def Lacks (word : String) : Prop := ∀ t ∈ topLevelTokens e.chars, t.isWord word = false

instance (word : String) : Decidable (e.Lacks word) :=
  inferInstanceAs (Decidable (∀ t ∈ topLevelTokens e.chars, _))

theorem matched_from (offset : Nat) : bracketsBehind [] (tokensFrom offset e.chars) = some [] := by
  rw [tokensFrom_eq, bracketsBehind_map (f := Token.later offset) fun _ => rfl]
  exact e.matched

theorem passable : Passable e.chars := by
  intro rest mild depth
  have braces := bracesBehind_add (bracesBehind_of_brackets e.matched) depth
  rw [List.count_nil, Nat.zero_add] at braces
  exact (kept_of_mild e.closed mild).closingBraceFrom_append braces

private theorem topLevel_append (offset : Nat) (mild : Mild rest) :
    outermost 0 (tokensFrom offset (e.chars ++ rest)) =
      outermost 0 (tokensFrom offset e.chars) ++
        outermost 0 (tokensFrom (offset + byteSize e.chars) rest) := by
  rw [(kept_of_mild e.closed mild).tokensFrom_append]
  exact outermost_append (e.matched_from offset)

theorem lacks_from (lacks : e.Lacks word) (member : t ∈ outermost 0 (tokensFrom offset e.chars)) :
    t.isWord word = false := by
  rw [tokensFrom_eq, outermost_map (f := Token.later offset) fun _ => rfl] at member
  obtain ⟨u, inTop, rfl⟩ := List.mem_map.1 member
  exact lacks u inTop

theorem findWord?_eq_none_iff : findWord? e.chars word = none ↔ e.Lacks word := by
  simp [findWord?, Lacks]

/-- A word that occurs in the phrase is found inside of it, whatever follows the phrase. -/
theorem findWord?_within (occurs : ¬e.Lacks word) (mild : Mild rest) :
    ∃ s, findWord? (e.chars ++ rest) word = some s ∧ s.start < byteSize e.chars := by
  have top := e.topLevel_append 0 mild
  cases found : (outermost 0 (tokensFrom 0 e.chars)).find? (·.isWord word) with
  | none => exact absurd (fun t member => by simpa using List.find?_eq_none.1 found t member) occurs
  | some t =>
    refine ⟨t.span, ?_, ?_⟩
    · unfold findWord? topLevelTokens tokens
      rw [top, List.find?_append, found]
      rfl
    · have inside := (outermost_sublist 0 _).subset (List.mem_of_find?_eq_some found)
      have start := start_lt_of_mem inside
      rw [Nat.zero_add] at start
      exact start

end Phrase

/-- Two phrases with a word between them. -/
structure Clause where
  subject : Phrase
  before : Spacing
  word : String
  isWord : isWord word.toList = true
  behind : Spacing
  binding : Phrase

namespace Clause

variable (e : Clause)

def upToWord : List Char := e.subject.chars ++ e.before.val

def fromWord : List Char := e.word.toList ++ e.behind.val ++ e.binding.chars

def chars : List Char := e.upToWord ++ e.fromWord

def wordSpan : Span := ⟨byteSize e.upToWord, byteSize (e.upToWord ++ e.word.toList)⟩

theorem passable : Passable e.chars := by
  intro rest mild
  obtain ⟨_, _, _, _, ident⟩ := isWord_iff.1 e.isWord
  have loose : ∀ d ∈ e.word.toList, isLoose d = true := fun d member => by
    simp [isLoose, ident d member]
  have binding : Skipped (e.behind.val ++ e.binding.chars) rest :=
    (skipped_blanks e.behind.property.2).append (e.binding.passable rest mild)
  have word := (skipped_loose loose).append binding
  have before := (skipped_blanks e.before.property.2).append word
  have mildBefore : Mild (e.before.val ++ (e.word.toList ++ (e.behind.val ++ e.binding.chars)) ++
      rest) := by
    rw [List.append_assoc]
    exact e.before.mild
  have whole := (e.subject.passable _ mildBefore).append before
  simpa [chars, upToWord, fromWord] using whole

/-- Outside of brackets there are the tokens of the subject, the word and the tokens of the binding. -/
theorem topLevelTokens_eq :
    topLevelTokens e.chars = topLevelTokens e.subject.chars ++
      ⟨.ident, e.wordSpan.start, e.word.toList⟩ ::
        outermost 0 (tokensFrom (e.wordSpan.stop + byteSize e.behind.val) e.binding.chars) := by
  have parts : e.chars = e.subject.chars ++ (e.before.val ++
      (e.word.toList ++ (e.behind.val ++ e.binding.chars))) := by
    simp [chars, upToWord, fromWord]
  unfold topLevelTokens tokens
  rw [parts, e.subject.topLevel_append 0 e.before.mild, tokensFrom_blank e.before.property.2,
    tokensFrom_word e.isWord e.behind.endsWord, outermost_plain (.inl rfl),
    tokensFrom_blank e.behind.property.2]
  simp [wordSpan, upToWord, byteSize_append, Nat.add_assoc]

/-- The word is found where it stands, if the subject lacks it. -/
theorem findWord?_word (lacks : e.subject.Lacks e.word) :
    findWord? e.chars e.word = some e.wordSpan := by
  unfold findWord?
  rw [e.topLevelTokens_eq, List.find?_append, List.find?_eq_none.2 fun t member => by
    simp [lacks t member], Option.none_or, List.find?_cons_of_pos]
  · simp [Token.span, Token.stop, wordSpan, byteSize_append]
  · simp [Token.isWord, Token.text]

/-- Another word is not found, if both phrases lack it. -/
theorem findWord?_other (other : word ≠ e.word) (subject : e.subject.Lacks word)
    (binding : e.binding.Lacks word) : findWord? e.chars word = none := by
  unfold findWord?
  rw [e.topLevelTokens_eq, Option.map_eq_none_iff, List.find?_eq_none]
  intro t member
  rw [Bool.not_eq_true]
  rcases List.mem_append.1 member with inSubject | inRest
  · exact subject t inSubject
  · rcases List.mem_cons.1 inRest with rfl | inBinding
    · simp [Token.isWord, Token.text, other.symm]
    · exact e.binding.lacks_from binding inBinding

theorem findWord?_early (occurs : ¬e.subject.Lacks word) :
    ∃ s, findWord? e.chars word = some s ∧ s.start < byteSize e.subject.chars := by
  have mild : Mild (e.before.val ++ e.fromWord) := e.before.mild
  have found := e.subject.findWord?_within occurs mild
  rwa [← List.append_assoc] at found

end Clause

/-- An expression is what stands between the white space around it. -/
theorem ofText_around (leadBlank : ∀ c ∈ lead, isBlank c = true) (trimmed : Trimmed core)
    (filled : core ≠ []) (trailBlank : ∀ c ∈ trail, isBlank c = true) :
    Expression.ofText offset (lead ++ core ++ trail) = placed core (offset + byteSize lead) := by
  have first : EndsRun isBlank (core ++ trail) := by
    intro c first
    rw [List.head?_append, List.head?_eq_some_head filled, Option.some_or,
      ← List.head?_eq_some_head filled] at first
    exact trimmed.1 c first
  have blank : (lead ++ core ++ trail).takeWhile isBlank = lead := by
    rw [List.append_assoc]
    exact takeWhile_until leadBlank first
  unfold Expression.ofText placed
  rw [trim_around trimmed filled leadBlank trailBlank, blank]

/-- The part of a header that is cut out with white space around it. -/
theorem slice?_around {header : Expression} {before after : List Char}
    (text : header.text = String.ofList (before ++ (lead ++ core ++ trail) ++ after))
    (leadBlank : ∀ c ∈ lead, isBlank c = true) (trimmed : Trimmed core)
    (filled : core ≠ []) (trailBlank : ∀ c ∈ trail, isBlank c = true) :
    header.slice? (byteSize before) (byteSize before + byteSize (lead ++ core ++ trail)) =
      some (placed core (header.span.start + byteSize (before ++ lead))) := by
  unfold Expression.slice?
  rw [text, text_middle, String.toList_ofList, ofText_around leadBlank trimmed filled trailBlank,
    byteSize_append, Nat.add_assoc]
  dsimp only
  rw [if_neg]
  simp [placed, Expression.isEmpty, filled]

/-- A part of a header has no more bytes than the slice it was taken from. -/
theorem size_slice?_le {header part : Expression} {start stop : Nat}
    (found : header.slice? start stop = some part) : part.text.utf8ByteSize ≤ stop - start := by
  have slice : ((Span.mk start stop).text header.text).utf8ByteSize ≤ stop - start := by
    unfold Span.text
    cases slice : TypedSvelte.slice? header.text start stop with
    | none => exact Nat.zero_le _
    | some text =>
      have size := stop_of_slice? slice
      change text.utf8ByteSize ≤ stop - start
      omega
  unfold Expression.slice? at found
  obtain ⟨_, same⟩ := Option.ite_none_left_eq_some.1 found
  cases same
  generalize (Span.mk start stop).text header.text = raw at slice
  obtain ⟨trail, parts⟩ := trim_parts raw.toList
  have size := congrArg byteSize parts
  rw [byteSize_append, byteSize_append, byteSize_toList] at size
  change (String.ofList (trim raw.toList)).utf8ByteSize ≤ _
  rw [utf8ByteSize_ofList]
  omega

@[simp]
theorem chars_placed (cs : List Char) (offset : Nat) : (placed cs offset).chars = cs :=
  String.toList_ofList

@[simp]
theorem size_placed (cs : List Char) (offset : Nat) :
    (placed cs offset).text.utf8ByteSize = byteSize cs :=
  utf8ByteSize_ofList cs

namespace Clause

variable (e : Clause)

/-- The subject of a clause that begins at byte `offset`. -/
def subjectAt (offset : Nat) : Expression := placed e.subject.chars offset

/-- The binding of a clause that begins at byte `offset`. -/
def bindingAt (offset : Nat) : Expression :=
  placed e.binding.chars (offset + e.wordSpan.stop + byteSize e.behind.val)

/-- The text before the word. -/
theorem slice?_subject : (placed e.chars offset).slice? 0 e.wordSpan.start =
    some (e.subjectAt offset) := by
  have text : (placed e.chars offset).text =
      String.ofList ([] ++ ([] ++ e.subject.chars ++ e.before.val) ++ e.fromWord) := rfl
  have slice := slice?_around text nofun e.subject.trimmed e.subject.filled e.before.property.2
  rw [byteSize, Nat.zero_add] at slice
  exact slice

/-- The text behind the word. -/
theorem after?_binding : (placed e.chars offset).after? e.wordSpan.stop =
    some (e.bindingAt offset) := by
  have text : (placed e.chars offset).text = String.ofList
      (e.upToWord ++ e.word.toList ++ (e.behind.val ++ e.binding.chars ++ []) ++ []) := by
    simp [placed, chars, fromWord]
  have slice := slice?_around text e.behind.property.2 e.binding.trimmed e.binding.filled nofun
  unfold Expression.after?
  rw [text, utf8ByteSize_ofList, List.append_nil, byteSize_append (_ ++ _)]
  rw [byteSize_append (_ ++ _) e.behind.val, ← Nat.add_assoc] at slice
  exact slice

/-- What stands before a word in the subject is not the subject. -/
theorem getD_slice?_ne {stop : Nat} (early : stop < byteSize e.subject.chars) :
    ((placed e.chars offset).slice? 0 stop).getD (placed e.chars offset) ≠ e.subjectAt offset := by
  intro same
  have sizes := congrArg (fun part : Expression => part.text.utf8ByteSize) same
  rw [subjectAt, size_placed] at sizes
  cases found : (placed e.chars offset).slice? 0 stop with
  | none =>
    have filled : 0 < byteSize e.before.val := by
      obtain ⟨_ | ⟨c, cs⟩, filled, _⟩ := e.before
      · exact absurd rfl filled
      · exact byteSize_cons_pos c cs
    rw [found, Option.getD_none, size_placed, chars, upToWord, byteSize_append,
      byteSize_append] at sizes
    omega
  | some part =>
    have bound := size_slice?_le found
    rw [found, Option.getD_some] at sizes
    omega

theorem trimmed : Trimmed e.chars := by
  have whole : Trimmed (e.subject.chars ++ (e.before.val ++ e.word.toList ++ e.behind.val) ++
      e.binding.chars) :=
    trimmed_between e.subject.trimmed e.binding.trimmed e.subject.filled e.binding.filled
  simpa [chars, upToWord, fromWord] using whole

theorem filled : e.chars ≠ [] := by
  simp [chars, upToWord, e.subject.filled]

end Clause

end TypedSvelte.Markup
