import TypedSvelte.Proofs.Markup.HeaderWords

/-!
# Parts of `{#each}` headers

The header of an `{#each}` block is put together from up to four phrases, with white space around
each of them: the items, the word `as`, the context, an index behind a comma and a key in
parentheses. It is cut at tokens outside of all brackets, three times and each time in what the cut
before has left, so whatever stands inside of the brackets of a phrase cannot be mistaken for what
separates the phrases (`split_parts`).
-/
namespace TypedSvelte.Markup

variable {c : Char} {text front after rest : List Char} {ts us : List Token}
  {stack behind : List Bracket} {offset : Nat}

/-- The last of the tokens is neither a word nor a number, which would go on with a word directly
behind it. -/
def EndsApart (ts : List Token) : Prop :=
  ∀ t, ts.getLast? = some t → t.kind ≠ .ident ∧ t.kind ≠ .number

private theorem EndsApart.of_append (apart : EndsApart (ts ++ us)) : EndsApart us := by
  intro t last
  apply apart t
  rw [List.getLast?_append, last]
  rfl

/-- What follows a text that is not open-ended begins a token of its own, if the last token of the
text does not go on with it. -/
theorem kept_of_endsApart (closed : openEnded text = false)
    (apart : EndsApart (tokensFrom offset text)) (slashless : Slashless after) :
    Kept after text := by
  fun_induction openEnded text generalizing offset with
  | case1 => exact .nil
  | case2 c rest ih =>
    obtain ⟨finished, others⟩ := Bool.or_eq_false_iff.1 closed
    rw [tokensFrom_cons] at apart
    refine .cons (lexeme_append_of_joined finished (.inr ?_)) (ih others apart.of_append)
    by_cases inside : (lexeme c rest).2 < rest.length
    · exact .inl inside
    · refine .inr ⟨slashless, fun joined => ?_⟩
      -- the piece is the last one, so it would be the last token
      have nothing : rest.drop (lexeme c rest).2 = [] :=
        List.drop_eq_nil_of_le (Nat.le_of_not_lt inside)
      rw [nothing, tokensFrom, List.append_nil] at apart
      obtain word | number := joined
      · rw [word] at apart
        exact absurd rfl (apart _ rfl).1
      · rw [number] at apart
        exact absurd rfl (apart _ rfl).2

abbrev Blanks := { cs : List Char // ∀ c ∈ cs, isBlank c = true }

private theorem Blanks.mild_append (blanks : Blanks) (mild : Mild rest) : Mild (blanks.val ++ rest) := by
  obtain ⟨_ | ⟨c, cs⟩, blank⟩ := blanks
  · exact mild
  · exact mild_of_blank (blank c (.head _))

/-- A phrase and the white space around it. -/
structure Padded where
  lead : Blanks
  phrase : Phrase
  trail : Blanks

namespace Padded

variable (p : Padded)

def chars : List Char := p.lead.val ++ p.phrase.chars ++ p.trail.val

/-- The phrase as an expression, if the white space before it begins at byte `offset`. -/
def place (offset : Nat) : Expression := placed p.phrase.chars (offset + byteSize p.lead.val)

theorem kept (mild : Mild rest) : Kept (p.trail.val ++ rest) p.phrase.chars :=
  kept_of_mild p.phrase.closed (p.trail.mild_append mild)

/-- The tokens are those of the phrase and of what follows it. -/
theorem tokensFrom_append (kept : Kept (p.trail.val ++ rest) p.phrase.chars) :
    tokensFrom offset (p.chars ++ rest) =
      tokensFrom (offset + byteSize p.lead.val) p.phrase.chars ++
        tokensFrom (offset + byteSize p.chars) rest := by
  have parts : p.chars ++ rest = p.lead.val ++ (p.phrase.chars ++ (p.trail.val ++ rest)) := by
    simp [chars]
  rw [parts, tokensFrom_blank p.lead.property, kept.tokensFrom_append,
    tokensFrom_blank p.trail.property]
  simp [chars, byteSize_append, Nat.add_assoc]

theorem outermost_append (kept : Kept (p.trail.val ++ rest) p.phrase.chars) :
    outermost 0 (tokensFrom offset (p.chars ++ rest)) =
      outermost 0 (tokensFrom (offset + byteSize p.lead.val) p.phrase.chars) ++
        outermost 0 (tokensFrom (offset + byteSize p.chars) rest) := by
  rw [p.tokensFrom_append kept]
  exact Markup.outermost_append (p.phrase.matched_from _)

/-- The phrase is what is cut out of a header with the white space around it. -/
theorem slice?_eq {header : Expression}
    (parts : header.text = String.ofList (front ++ p.chars ++ after)) :
    header.slice? (byteSize front) (byteSize front + byteSize p.chars) =
      some (p.place (header.span.start + byteSize front)) := by
  have slice := @slice?_around p.lead.val p.phrase.chars p.trail.val header front after parts
    p.lead.property p.phrase.trimmed p.phrase.filled p.trail.property
  rw [byteSize_append front, ← Nat.add_assoc] at slice
  exact slice

/-- A text that ends with the phrase has its last character, trimmed. -/
theorem getLast?_trimEnd (front : List Char) :
    (trimEnd (front ++ p.chars)).getLast? = p.phrase.chars.getLast? := by
  have last : (front ++ p.lead.val ++ p.phrase.chars).getLast? = p.phrase.chars.getLast? := by
    rw [List.getLast?_append, List.getLast?_eq_some_getLast p.phrase.filled, Option.some_or]
  have parts : front ++ p.chars = front ++ p.lead.val ++ p.phrase.chars ++ p.trail.val := by
    simp [chars]
  rw [parts, trimEnd_append p.trail.property (last ▸ p.phrase.trimmed.2), last]

end Padded

/-- Within an open bracket nothing is outermost until it is closed. -/
theorem outermost_inside (matched : bracketsBehind stack ts = some behind) :
    outermost (stack.length + 1) (ts ++ us) = outermost (behind.length + 1) us := by
  induction ts generalizing stack with
  | nil =>
    cases matched
    rfl
  | cons t ts ih =>
    rw [bracketsBehind_cons] at matched
    obtain ⟨next, after, others⟩ := Option.bind_eq_some_iff.1 matched
    have inner : isOutermost (stack.length + 1) t.kind = false ∧
        depthBehind (stack.length + 1) t.kind = next.length + 1 := by
      unfold bracketsAfter at after
      split at after
      · rename_i bracket opens
        cases after
        rw [opens]
        exact ⟨rfl, rfl⟩
      · rename_i bracket closes
        obtain ⟨innermost, same⟩ := Option.ite_none_right_eq_some.1 after
        cases same
        obtain ⟨outer, rfl⟩ := List.head?_eq_some_iff.1 innermost
        rw [closes]
        exact ⟨rfl, rfl⟩
      · rename_i notOpening notClosing
        cases after
        cases kind : t.kind with
        | opening bracket => exact absurd kind (notOpening bracket)
        | closing bracket => exact absurd kind (notClosing bracket)
        | ident | number | string | template | comment | comma | punct => exact ⟨rfl, rfl⟩
    rw [List.cons_append, outermost_cons, inner.1, inner.2]
    exact ih others

/-- A key in parentheses, which end the header but for white space. -/
structure KeyGroup where
  content : Padded
  trail : Blanks

namespace KeyGroup

variable (k : KeyGroup)

def group : List Char := '(' :: (k.content.chars ++ [')'])

def chars : List Char := k.group ++ k.trail.val

theorem mild : Mild k.chars := by
  rintro d ⟨⟩
  rfl

/-- Only the parentheses are outside of brackets. -/
theorem outermost_eq : outermost 0 (tokensFrom offset k.chars) =
    [⟨.opening .paren, offset, ['(']⟩,
      ⟨.closing .paren, offset + 1 + byteSize k.content.chars, [')']⟩] := by
  have parts : k.chars = '(' :: (k.content.chars ++ ')' :: (k.trail.val ++ [])) := by
    simp [chars, group]
  have closes : Mild (')' :: (k.trail.val ++ [])) := by
    rintro d ⟨⟩
    rfl
  rw [parts, tokensFrom_mark lexeme_openingParen,
    k.content.tokensFrom_append (k.content.kept closes), tokensFrom_mark lexeme_closingParen,
    tokensFrom_blank k.trail.property, tokensFrom]
  have inner (closing : Token) := @outermost_inside _ [closing] _ _
    (k.content.phrase.matched_from (offset + 1 + byteSize k.content.lead.val))
  exact congrArg (_ :: ·) (inner _)

/-- The key is the group that ends a text, if nothing before it takes it in. -/
theorem trailingGroup?_append (separate : topLevelTokens (front ++ k.chars) =
      ts ++ outermost 0 (tokensFrom (byteSize front) k.chars)) :
    trailingGroup? (front ++ k.chars) =
      some ⟨byteSize front, byteSize front + byteSize k.group⟩ := by
  have last : ∀ c, (front ++ k.group).getLast? = some c → isBlank c = false := by
    rw [group, ← List.cons_append, ← List.append_assoc, List.getLast?_concat]
    rintro c ⟨⟩
    decide
  have size : byteSize front + 1 + byteSize k.content.chars + 1 =
      byteSize (front ++ k.group) := by
    have whole : byteSize k.group = 1 + byteSize (k.content.chars ++ [')']) := rfl
    have close : byteSize [')'] = 1 := rfl
    rw [byteSize_append, whole, byteSize_append, close]
    omega
  have closing : (Token.mk (.closing .paren)
      (byteSize front + 1 + byteSize k.content.chars) [')']).stop = byteSize (front ++ k.group) :=
    size
  unfold trailingGroup?
  rw [separate, k.outermost_eq, chars, ← List.append_assoc, trimEnd_append k.trail.property last,
    List.reverse_append]
  simp [closing, byteSize_append]

end KeyGroup

/-- The parts of an `{#each}` header, with the white space around them. -/
structure EachParts where
  subject : Padded
  context : Padded
  index : Option Padded
  key : Option KeyGroup

namespace EachParts

variable (e : EachParts)

def upToWord : List Char := e.subject.chars ++ "as".toList

def indexChars : List Char :=
  match e.index with
  | none => []
  | some index => ',' :: index.chars

def binding : List Char := e.context.chars ++ e.indexChars

def keyChars : List Char :=
  match e.key with
  | none => []
  | some key => key.chars

def chars : List Char := e.upToWord ++ (e.binding ++ e.keyChars)

/-- The index, or the context where there is none. -/
def last : Padded := e.index.getD e.context

/-- The parts as expressions, if the header begins at byte `offset`. -/
def places (offset : Nat) : EachHeader where
  expression := e.subject.place offset
  context := some (e.context.place (offset + byteSize e.upToWord))
  index := e.index.map (·.place (offset + byteSize (e.upToWord ++ e.context.chars ++ [','])))
  key := e.key.map (·.content.place (offset + byteSize (e.upToWord ++ e.binding ++ ['('])))

/-- Where there is no white space around `as`, nothing joins it to a longer word. -/
structure SetApart : Prop where
  before : e.subject.trail.val = [] → EndsApart (tokens e.subject.phrase.chars)
  behind : e.context.lead.val = [] → EndsWord e.context.phrase.chars

private theorem kept_subject (apart : e.SetApart) :
    Kept (e.subject.trail.val ++ ("as".toList ++ rest)) e.subject.phrase.chars := by
  obtain ⟨⟨lead, phrase, ⟨_ | ⟨c, cs⟩, blank⟩⟩, context, index, key⟩ := e
  · refine kept_of_endsApart phrase.closed (apart.before rfl) ?_
    rintro d ⟨⟩
    decide
  · exact kept_of_mild phrase.closed (mild_of_blank (blank c (.head _)))

theorem endsWord_binding (apart : e.SetApart) : EndsWord (e.binding ++ rest) := by
  obtain ⟨subject, ⟨⟨_ | ⟨c, cs⟩, blank⟩, phrase, trail⟩, index, key⟩ := e
  · have ends := apart.behind rfl
    intro d first
    apply ends d
    cases chars : phrase.chars with
    | nil => exact absurd chars phrase.filled
    | cons c cs =>
      simp only [binding, Padded.chars, chars] at first
      exact first
  · rintro d ⟨⟩
    exact (isMild_iff.1 (@mild_of_blank _ [] (blank c (.head _)) c rfl)).1

/-- The word is found behind the subject. -/
theorem findWord?_chars (lacks : e.subject.phrase.Lacks "as") (apart : e.SetApart) :
    findWord? e.chars "as" = some ⟨byteSize e.subject.chars, byteSize e.upToWord⟩ := by
  have parts : e.chars = e.subject.chars ++ ("as".toList ++ (e.binding ++ e.keyChars)) := by
    simp [chars, upToWord]
  unfold findWord? topLevelTokens tokens
  rw [parts, e.subject.outermost_append (e.kept_subject apart),
    tokensFrom_word (by decide) (e.endsWord_binding apart), outermost_plain (.inl rfl),
    List.find?_append, List.find?_eq_none.2 fun t member => by
      simp [e.subject.phrase.lacks_from lacks member], Option.none_or, List.find?_cons_of_pos]
  · simp [Token.span, Token.stop, upToWord, byteSize_append]
  · simp [Token.isWord, Token.text]

/-- The tokens of the context and the index outside of brackets, with the comma. -/
def bindingTokens : List Token :=
  outermost 0 (tokensFrom (byteSize e.context.lead.val) e.context.phrase.chars) ++
    match e.index with
    | none => []
    | some index =>
      ⟨.comma, byteSize e.context.chars, [',']⟩ :: outermost 0 (tokensFrom
        (byteSize e.context.chars + 1 + byteSize index.lead.val) index.phrase.chars)

private theorem topLevelTokens_binding (mild : Mild rest) :
    topLevelTokens (e.binding ++ rest) =
      e.bindingTokens ++ outermost 0 (tokensFrom (byteSize e.binding) rest) := by
  unfold topLevelTokens tokens bindingTokens binding indexChars
  cases e.index with
  | none =>
    rw [List.append_nil, List.append_nil, e.context.outermost_append (e.context.kept mild)]
    simp
  | some index =>
    have comma : Mild (',' :: index.chars ++ rest) := by
      rintro d ⟨⟩
      rfl
    have size : byteSize (e.context.chars ++ ',' :: index.chars) =
        byteSize e.context.chars + ','.utf8Size + byteSize index.chars := by
      rw [byteSize_append, byteSize, Nat.add_assoc]
    rw [List.append_assoc, e.context.outermost_append (e.context.kept comma), List.cons_append,
      tokensFrom_mark lexeme_comma, outermost_plain (.inr rfl),
      index.outermost_append (index.kept mild), size]
    simp only [List.append_assoc, List.cons_append, Nat.zero_add]
    rfl

/-- The comma is found behind the context, if there is an index. -/
theorem findComma?_binding (single : ∀ t ∈ topLevelTokens e.context.phrase.chars, t.kind ≠ .comma) :
    findComma? e.binding = e.index.map fun _ => byteSize e.context.chars := by
  have top : topLevelTokens e.binding = e.bindingTokens := by
    have whole := @topLevelTokens_binding [] e nofun
    rwa [List.append_nil, tokensFrom, outermost, List.append_nil] at whole
  have none_context : (outermost 0 (tokensFrom (byteSize e.context.lead.val)
      e.context.phrase.chars)).find? (·.kind == .comma) = none := by
    rw [tokensFrom_eq, outermost_map (f := Token.later _) fun _ => rfl, List.find?_eq_none]
    intro t member
    obtain ⟨u, inTop, rfl⟩ := List.mem_map.1 member
    exact fun isComma => single u inTop (eq_of_beq isComma)
  unfold findComma?
  rw [top, bindingTokens, List.find?_append, none_context, Option.none_or]
  cases e.index <;> rfl

/-- A binding is cut into the context and the index. -/
theorem splitBinding_eq {header : Expression}
    (parts : header.text = String.ofList (front ++ e.binding ++ after))
    (single : ∀ t ∈ topLevelTokens e.context.phrase.chars, t.kind ≠ .comma) :
    splitBinding header (byteSize front) (byteSize front + byteSize e.binding) =
      (some (e.context.place (header.span.start + byteSize front)),
        e.index.map
          (·.place (header.span.start + byteSize (front ++ e.context.chars ++ [','])))) := by
  unfold splitBinding
  rw [parts, text_middle, String.toList_ofList, e.findComma?_binding single]
  unfold binding indexChars at parts ⊢
  cases index : e.index with
  | none =>
    rw [index, List.append_nil] at parts
    have context := e.context.slice?_eq parts
    simp only [Option.map_none, List.append_nil, context]
  | some index' =>
    rw [index] at parts
    have context : header.slice? (byteSize front) (byteSize front + byteSize e.context.chars) = _ :=
      @Padded.slice?_eq front (',' :: index'.chars ++ after) e.context header (by simp [parts])
    have behind : header.slice? (byteSize (front ++ e.context.chars ++ [',']))
        (byteSize (front ++ e.context.chars ++ [',']) + byteSize index'.chars) = _ :=
      @Padded.slice?_eq (front ++ e.context.chars ++ [',']) after index' header (by simp [parts])
    have comma : byteSize (front ++ e.context.chars ++ [',']) =
        byteSize front + byteSize e.context.chars + 1 := by
      rw [byteSize_append, byteSize_append]
      rfl
    have stop : byteSize front + byteSize (e.context.chars ++ ',' :: index'.chars) =
        byteSize (front ++ e.context.chars ++ [',']) + byteSize index'.chars := by
      rw [comma, byteSize_append, byteSize_comma]
      omega
    dsimp only [Option.map_some]
    rw [stop, context, ← comma, behind]

/-- The group that ends the binding and the key is the key. -/
theorem trailingGroup?_binding
    (ungrouped : e.key = none → e.last.phrase.chars.getLast? ≠ some ')') :
    trailingGroup? (e.binding ++ e.keyChars) =
      e.key.map fun key => ⟨byteSize e.binding, byteSize e.binding + byteSize key.group⟩ := by
  unfold keyChars
  cases keyed : e.key with
  | some key => exact key.trailingGroup?_append (e.topLevelTokens_binding key.mild)
  | none =>
    obtain ⟨front, parts⟩ : ∃ front, e.binding = front ++ e.last.chars := by
      unfold binding indexChars last
      cases e.index with
      | none => exact ⟨[], List.append_nil _⟩
      | some index => exact ⟨e.context.chars ++ [','], by simp⟩
    rw [List.append_nil, parts, Option.map_none, Option.eq_none_iff_forall_ne_some]
    intro group found
    have ends := getLast?_of_trailingGroup? found
    rw [e.last.getLast?_trimEnd] at ends
    exact ungrouped keyed ends

end EachParts

/-- A header is cut into the parts that it was put together from, each in its place. The first `as`
outside of brackets must be the one between the items and the context, the first comma the one
behind the context, and a group in parentheses at the end the key. -/
theorem EachHeader.split_parts (e : EachParts) (offset : Nat) (apart : e.SetApart)
    (lacks : e.subject.phrase.Lacks "as")
    (single : ∀ t ∈ topLevelTokens e.context.phrase.chars, t.kind ≠ .comma)
    (ungrouped : e.key = none → e.last.phrase.chars.getLast? ≠ some ')') :
    EachHeader.split (placed e.chars offset) = e.places offset := by
  have parts : (placed e.chars offset).text =
      String.ofList (e.upToWord ++ (e.binding ++ e.keyChars) ++ []) := by
    simp [placed, EachParts.chars]
  have size : (placed e.chars offset).text.utf8ByteSize =
      byteSize e.upToWord + byteSize (e.binding ++ e.keyChars) := by
    rw [size_placed, EachParts.chars, byteSize_append]
  have after : (Span.mk (byteSize e.upToWord) (placed e.chars offset).text.utf8ByteSize).text
      (placed e.chars offset).text = String.ofList (e.binding ++ e.keyChars) := by
    rw [size, parts]
    exact text_middle ..
  have subject : (placed e.chars offset).slice? 0 (byteSize e.subject.chars) =
      some (e.subject.place offset) := by
    have slice := @Padded.slice?_eq [] ("as".toList ++ (e.binding ++ e.keyChars)) e.subject
      (placed e.chars offset) (by simp [parts, EachParts.upToWord])
    rw [byteSize, Nat.zero_add] at slice
    exact slice
  have binding := @EachParts.splitBinding_eq e.upToWord e.keyChars e (placed e.chars offset)
    (by simp [parts]) single
  unfold EachHeader.split
  rw [chars_placed, e.findWord?_chars lacks apart]
  dsimp only
  rw [after, String.toList_ofList, e.trailingGroup?_binding ungrouped, subject]
  unfold EachParts.places
  cases keyed : e.key with
  | none =>
    have stop : (placed e.chars offset).text.utf8ByteSize =
        byteSize e.upToWord + byteSize e.binding := by
      rw [size, EachParts.keyChars, keyed, List.append_nil]
    dsimp only [Option.map_none]
    rw [stop, binding]
    rfl
  | some key =>
    have content := @Padded.slice?_eq (e.upToWord ++ e.binding ++ ['(']) (')' :: key.trail.val)
      key.content (placed e.chars offset)
      (by simp [parts, EachParts.keyChars, keyed, KeyGroup.chars, KeyGroup.group])
    have opening : byteSize (e.upToWord ++ e.binding ++ ['(']) =
        byteSize e.upToWord + byteSize e.binding + 1 := by
      rw [byteSize_append, byteSize_append]
      rfl
    have closing : byteSize e.upToWord + (byteSize e.binding + byteSize key.group) - 1 =
        byteSize (e.upToWord ++ e.binding ++ ['(']) + byteSize key.content.chars := by
      rw [opening, KeyGroup.group, byteSize_openingParen, byteSize_append, byteSize_closingParen,
        byteSize_nil]
      omega
    dsimp only [Option.map_some]
    rw [binding, ← opening, closing, content]
    rfl

private theorem trimmed_of_all {cs : List Char} (first : cs.head?.all (!isBlank ·) = true)
    (last : cs.getLast?.all (!isBlank ·) = true) : Trimmed cs := by
  simp only [Option.all_eq_true, Bool.not_eq_true'] at first last
  exact ⟨first, last⟩

/-- Calls, patterns and groups with commas and an `as` inside of them; and a header without any
white space. -/
theorem EachHeader.split_parts_nested :
    EachHeader.split (placed "f((x) => x as T) as \x7b a = [1, 2] \x7d ,i ( k(a, b) )".toList 7) =
      ⟨placed "f((x) => x as T)".toList 7, some (placed "\x7b a = [1, 2] \x7d".toList 27),
        some (placed ['i'] 43), some (placed "k(a, b)".toList 47)⟩ ∧
    EachHeader.split (placed "[1]as[x]".toList 7) =
      ⟨placed "[1]".toList 7, some (placed "[x]".toList 12), none, none⟩ := by
  let nothing : Blanks := ⟨[], fun _ absent => absurd absent List.not_mem_nil⟩
  let space : Blanks := ⟨[' '], isBlank_space⟩
  let call : Phrase := ⟨"f((x) => x as T)".toList, by decide +kernel, trimmed_of_all rfl rfl,
    by decide +kernel, by decide +kernel⟩
  let pattern : Phrase := ⟨"\x7b a = [1, 2] \x7d".toList, by decide +kernel, trimmed_of_all rfl rfl,
    by decide +kernel, by decide +kernel⟩
  let index : Phrase := ⟨['i'], by decide, trimmed_of_all rfl rfl, by decide +kernel,
    by decide +kernel⟩
  let key : Phrase := ⟨"k(a, b)".toList, by decide +kernel, trimmed_of_all rfl rfl,
    by decide +kernel, by decide +kernel⟩
  let items : Phrase := ⟨"[1]".toList, by decide +kernel, trimmed_of_all rfl rfl,
    by decide +kernel, by decide +kernel⟩
  let item : Phrase := ⟨"[x]".toList, by decide +kernel, trimmed_of_all rfl rfl,
    by decide +kernel, by decide +kernel⟩
  let keyed : EachParts := ⟨⟨nothing, call, space⟩, ⟨space, pattern, space⟩,
    some ⟨nothing, index, space⟩, some ⟨⟨space, key, space⟩, nothing⟩⟩
  let bare : EachParts := ⟨⟨nothing, items, nothing⟩, ⟨nothing, item, nothing⟩, none, none⟩
  have endsApart : EndsApart (tokens items.chars) := by
    have last : (tokens items.chars).getLast? = some ⟨.closing .square, 2, [']']⟩ := by
      decide +kernel
    intro t found
    cases last.symm.trans found
    exact ⟨by decide, by decide⟩
  have endsWord : EndsWord item.chars := by
    rintro d ⟨⟩
    rfl
  have first := EachHeader.split_parts keyed 7
    ⟨fun none => absurd none (List.cons_ne_nil _ _), fun none => absurd none (List.cons_ne_nil _ _)⟩
    (by decide +kernel) (by decide +kernel) fun none => absurd none (Option.some_ne_none _)
  have second := EachHeader.split_parts bare 7 ⟨fun _ => endsApart, fun _ => endsWord⟩
    (by decide +kernel) (by decide +kernel) fun _ => by decide +kernel
  rw [show keyed.chars = "f((x) => x as T) as \x7b a = [1, 2] \x7d ,i ( k(a, b) )".toList by
    decide +kernel] at first
  rw [show bare.chars = "[1]as[x]".toList by decide +kernel] at second
  exact ⟨first.trans (by decide +kernel), second.trans (by decide +kernel)⟩

end TypedSvelte.Markup
