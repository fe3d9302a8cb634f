import TypedSvelte.Proofs.Markup.Readers
import TypedSvelte.Proofs.Markup.RenderedParts

/-!
# Expressions in attribute values

The expressions that are written in the value of an attribute (`Assignment.expressions`) and those that
the attribute is read with. A plain attribute has the expressions of a value in quotes or braces; a
directive has the one expression of a value that is nothing but a pair of braces. Of any other value,
and of any value that is written without quotes, an attribute has none (`expressions_of_read`).
-/
namespace TypedSvelte.Markup

/-- The expressions in the braces of a text that begins at byte `offset`, up to a character that ends
it. A brace that nothing closes is a character like any other. -/
def bracedExpressions (ends : Char → Bool) (offset : Nat) : List Char → List Expression
  | [] => []
  | c :: rest =>
    if ends c then []
    else if c == '{' then
      match closingBrace? rest with
      | some n => Expression.ofText (offset + 1) (rest.take n) ::
          bracedExpressions ends (offset + 1 + byteSize (rest.take (n + 1))) (rest.drop (n + 1))
      | none => bracedExpressions ends (offset + 1) rest
    else bracedExpressions ends (offset + c.utf8Size) rest
  termination_by text => text.length

/-- The expressions of a value that begins at byte `offset` and has more text behind it. A value ends
with the quote or the brace that closes it, or before white space or the end of the tag. -/
def valueExpressions (offset : Nat) : List Char → List Expression
  | '"' :: rest => bracedExpressions (· == '"') (offset + 1) rest
  | '\'' :: rest => bracedExpressions (· == '\'') (offset + 1) rest
  | '{' :: rest =>
    ((closingBrace? rest).map fun n => Expression.ofText (offset + 1) (rest.take n)).toList
  | text => bracedExpressions (fun c => isBlank c || c == '>') offset text

def isDelimited : List Char → Bool
  | '"' :: _ | '\'' :: _ | '{' :: _ => true
  | _ => false

/-- A pair of braces comes before the quote, and nothing else. -/
def isPairBefore (quote : Char) : List Char → Bool
  | '{' :: rest => (closingBrace? rest).any fun n => rest[n + 1]? == some quote
  | _ => false

/-- The value is one pair of braces, which may be in quotes. -/
def isOnePair : List Char → Bool
  | '"' :: rest => isPairBefore '"' rest
  | '\'' :: rest => isPairBefore '\'' rest
  | '{' :: _ => true
  | _ => false

/-- An attribute `name=value` at its place in a source, where there may be white space around the
equals sign. The value has the rest of the source behind it. -/
structure Assignment (source : String) where
  before : List Char
  name : List Char
  gap : List Char
  space : List Char
  value : List Char
  whole : source.toList = before ++ (name ++ (gap ++ '=' :: (space ++ value)))
  named : name.all (!Scan.endsAttributeName ·) = true
  gapBlank : gap.all isBlank = true
  spaceBlank : space.all isBlank = true
  begins : EndsRun isBlank value

namespace Assignment

variable {source : String} (text : Assignment source)

def start : Nat := byteSize text.before

def front : List Char := text.before ++ (text.name ++ (text.gap ++ '=' :: text.space))

def expressions : List Expression := valueExpressions (byteSize text.front) text.value

private theorem front_append : source.toList = text.front ++ text.value := by
  simp [front, text.whole]

end Assignment

def Attribute.start? : Attribute → Option Nat
  | .plain a => some a.span.start
  | .directive d => some d.span.start
  | .shorthand _ | .spread _ => none

/-- The attribute is read with the expressions of such a value. -/
def Attribute.keeps (value : List Char) : Attribute → Bool
  | .directive _ => isOnePair value
  | _ => isDelimited value

def partExpressions (value : List ValuePart) : List Expression :=
  value.filterMap fun
    | .expression e => some e
    | .text _ => none

private theorem bracedExpressions_run {ends : Char → Bool} {run rest : List Char} {offset : Nat}
    (plain : ∀ d ∈ run, ends d = false ∧ d ≠ '{') :
    bracedExpressions ends offset (run ++ rest) =
      bracedExpressions ends (offset + byteSize run) rest := by
  induction run generalizing offset with
  | nil => rfl
  | cons d run ih =>
    have ⟨first, others⟩ := List.forall_mem_cons.1 plain
    rw [List.cons_append, bracedExpressions, if_neg (by simp [first.1]), if_neg (by simp [first.2]),
      ih others, byteSize, Nat.add_assoc]

namespace Scan

variable {source : String} {s : Scan} {quote : Char} {opening : Nat}

/-- An expression that is read without errors. -/
theorem exists_expression {rest : List Char} (ahead : s.rest = '{' :: rest)
    (accepted : ((s.skip 1).expression opening).2.errors = []) : ∃ n, closingBrace? rest = some n ∧
      (s.skip 1).expression opening = (some (Expression.ofText (s.pos + 1) (rest.take n)),
        ⟨s.pos + 1 + byteSize (rest.take (n + 1)), rest.drop (n + 1), s.errors⟩) := by
  have inside : s.skip 1 = ⟨s.pos + 1, rest, s.errors⟩ := by
    rw [skip, ahead]
    rfl
  rw [inside] at accepted ⊢
  unfold expression at accepted ⊢
  cases found : closingBrace? rest with
  | none =>
    rw [found] at accepted
    exact absurd accepted (errors_fail_ne _ _ _)
  | some n => exact ⟨n, rfl, rfl⟩

/-- An expression in a quoted value that is read without errors. -/
theorem exists_quotedExpression {rest : List Char} (ahead : s.rest = '{' :: rest)
    (since : Since source opening s)
    (accepted : (((s.skip 1).expression s.pos).2.quotedParts quote opening).2.errors = []) :
    Since source opening ((s.skip 1).expression s.pos).2 ∧ ∃ n, closingBrace? rest = some n ∧
      (s.skip 1).expression s.pos = (some (Expression.ofText (s.pos + 1) (rest.take n)),
        ⟨s.pos + 1 + byteSize (rest.take (n + 1)), rest.drop (n + 1), s.errors⟩) := by
  have opened := since.here.since (s.reaches_skip 1)
  have toNext := since.onward ((s.leads_skip 1).trans (leads_expression opened)).reached
  have kept := (leads_quotedParts toNext quote).kept
  rw [accepted] at kept
  exact ⟨toNext, exists_expression ahead (List.suffix_nil.1 kept)⟩

/-- A quoted value is read with the expressions that are written before the quote. -/
theorem expressions_quotedParts (since : Since source opening s)
    (accepted : (s.quotedParts quote opening).2.errors = []) :
    partExpressions (s.quotedParts quote opening).1 =
      bracedExpressions (· == quote) s.pos s.rest := by
  fun_induction quotedParts s quote opening with
  | case1 s ended => exact absurd accepted (errors_fail_ne _ _ _)
  | case2 s c rest ahead closes =>
    rw [ahead, bracedExpressions, if_pos closes]
    rfl
  | case3 s c rest ahead closes isBrace shorter more ih =>
    cases eq_of_beq isBrace
    obtain ⟨toNext, n, found, read⟩ := exists_quotedExpression ahead since accepted
    have others := ih toNext accepted
    rw [ahead, bracedExpressions, if_neg closes, if_pos isBrace, found]
    simp only [more]
    rw [read] at others ⊢
    exact congrArg (List.cons _) others
  | case4 s c rest ahead closes isBrace n shorter more ih =>
    have toNext := since.onward (s.reaches_skip n)
    have taken : s.rest.take n = c :: rest.takeWhile (fun d => d != quote && d != '{') := by
      have whole := List.prefix_iff_eq_take.1
        (List.takeWhile_prefix (l := rest) (fun d => d != quote && d != '{'))
      simp only [n, ahead, List.tail_cons, Nat.add_comm 1, List.take_succ_cons, ← whole]
    have run : ∀ d ∈ s.rest.take n, (d == quote) = false ∧ d ≠ '{' := by
      rw [taken]
      refine List.forall_mem_cons.2 ⟨⟨by simpa using closes, by simpa using isBrace⟩, ?_⟩
      intro d member
      have inRun := List.all_eq_true.1 List.all_takeWhile d member
      simpa using inRun
    calc
      _ = bracedExpressions (· == quote) (s.skip n).pos (s.skip n).rest := ih toNext accepted
      _ = bracedExpressions (· == quote) s.pos (s.rest.take n ++ s.rest.drop n) :=
        (bracedExpressions_run run).symm
      _ = _ := by rw [List.take_append_drop]

/-- A quoted value has no parts only if its closing quote is ahead. -/
theorem quotedParts_eq_nil_iff (since : Since source opening s)
    (accepted : (s.quotedParts quote opening).2.errors = []) :
    (s.quotedParts quote opening).1 = [] ↔ s.rest.head? = some quote := by
  fun_induction quotedParts s quote opening with
  | case1 s ended => exact absurd accepted (errors_fail_ne _ _ _)
  | case2 s c rest ahead closes => simpa [ahead] using closes
  | case3 s c rest ahead closes isBrace shorter more ih =>
    cases eq_of_beq isBrace
    obtain ⟨_, n, _, read⟩ := exists_quotedExpression ahead since accepted
    simpa [ahead, read] using closes
  | case4 s c rest ahead closes isBrace n shorter more ih => simpa [ahead] using closes

/-- A pair of braces before the quote is read as one expression, and nothing else is. -/
theorem quotedParts_eq_singleton_iff (brace : quote ≠ '{') (since : Since source opening s)
    (accepted : (s.quotedParts quote opening).2.errors = []) :
    isPairBefore quote s.rest = true ↔
      ∃ e, (s.quotedParts quote opening).1 = [.expression e] := by
  fun_induction quotedParts s quote opening with
  | case1 s ended => exact absurd accepted (errors_fail_ne _ _ _)
  | case2 s c rest ahead closes =>
    cases eq_of_beq closes
    simp [ahead, isPairBefore, brace]
  | case3 s c rest ahead closes isBrace shorter more ih =>
    cases eq_of_beq isBrace
    obtain ⟨toNext, n, found, read⟩ := exists_quotedExpression ahead since accepted
    have ends := quotedParts_eq_nil_iff toNext accepted
    rw [read] at ends
    simp only [more, ahead, isPairBefore, found, read, Option.any_some, beq_iff_eq]
    rw [← List.head?_drop, ← ends]
    simp
  | case4 s c rest ahead closes isBrace n shorter more ih =>
    simp [ahead, isPairBefore, beq_iff_eq.not.1 isBrace]

/-- A directive keeps a value that is one expression. -/
theorem toList_soleExpression? {value : List ValuePart} {isSole : Bool}
    (sole : isSole = true ↔ ∃ e, value = [.expression e]) :
    (soleExpression? value).toList = if isSole then partExpressions value else [] := by
  cases isSole with
  | true =>
    obtain ⟨e, rfl⟩ := sole.1 rfl
    rfl
  | false =>
    unfold soleExpression?
    split
    · exact absurd (sole.2 ⟨_, rfl⟩) Bool.false_ne_true
    · rfl

/-- What a value in quotes is read with, as parts and as the one expression of a directive. -/
theorem expressions_quoted {rest : List Char} (ahead : s.rest = quote :: rest)
    (byte : quote.utf8Size = 1) (brace : quote ≠ '{') (here : (ofSource source).Reaches s)
    (accepted : ((s.skip 1).quotedParts quote s.pos).2.errors = []) :
    partExpressions ((s.skip 1).quotedParts quote s.pos).1 =
        bracedExpressions (· == quote) (s.pos + 1) rest ∧
      (soleExpression? ((s.skip 1).quotedParts quote s.pos).1).toList =
        if isPairBefore quote rest then bracedExpressions (· == quote) (s.pos + 1) rest else [] := by
  have since := here.since (s.reaches_skip 1)
  have inside : s.skip 1 = ⟨s.pos + 1, rest, s.errors⟩ := by
    simp [skip, ahead, byteSize, byte]
  have parts := expressions_quotedParts since accepted
  have sole := toList_soleExpression? (quotedParts_eq_singleton_iff brace since accepted)
  rw [parts] at sole
  rw [inside] at parts sole ⊢
  exact ⟨parts, sole⟩

/-- What a value is read with, as parts and as the one expression of a directive. -/
theorem expressions_attributeValue (here : (ofSource source).Reaches s)
    (accepted : s.attributeValue.2.errors = []) :
    partExpressions s.attributeValue.1 =
        (if isDelimited s.rest then valueExpressions s.pos s.rest else []) ∧
      (soleExpression? s.attributeValue.1).toList =
        if isOnePair s.rest then valueExpressions s.pos s.rest else [] := by
  unfold attributeValue at accepted ⊢
  split at accepted
  · rename_i rest ahead
    rw [ahead]
    exact expressions_quoted ahead rfl (by decide) here accepted
  · rename_i rest ahead
    rw [ahead]
    exact expressions_quoted ahead rfl (by decide) here accepted
  · rename_i rest ahead
    obtain ⟨n, found, read⟩ := exists_expression ahead accepted
    rw [ahead, read]
    simp [isDelimited, isOnePair, valueExpressions, found, partExpressions, soleExpression?]
  · rename_i double single brace
    have delimited : isDelimited s.rest = false := by
      unfold isDelimited
      split <;> simp_all
    have pair : isOnePair s.rest = false := by
      unfold isOnePair
      split <;> simp_all
    rw [delimited, pair]
    exact ⟨rfl, rfl⟩

theorem start?_namedAttribute (span : Span) (name : String) (value : List ValuePart) :
    (namedAttribute span name value).start? = some span.start := by
  unfold namedAttribute
  dsimp only
  split <;> rfl

private theorem expressions_namedAttribute {span : Span} {name : String} {value : List ValuePart}
    {a : Attribute} {written : List Char} {es : List Expression}
    (named : namedAttribute span name value = a)
    (parts : partExpressions value = if isDelimited written then es else [])
    (sole : (soleExpression? value).toList = if isOnePair written then es else []) :
    a.expressions = if a.keeps written then es else [] := by
  unfold namedAttribute at named
  dsimp only at named
  split at named
  · cases named
    exact sole
  · cases named
    exact parts

theorem start?_bracedAttribute {e : Expression} {a : Attribute}
    (braced : bracedAttribute? e = some a) : a.start? = none := by
  unfold bracedAttribute? at braced
  split at braced
  · obtain ⟨rest, _, rfl⟩ := Option.map_eq_some_iff.1 braced
    rfl
  · cases braced
    rfl

end Scan

namespace Assignment

open Scan

variable {source : String} (text : Assignment source) {s : Scan} {a : Attribute}

/-- The place of the attribute in its source. -/
theorem rest_eq (here : (ofSource source).Reaches s) (place : s.pos = text.start) :
    s.rest = text.name ++ (text.gap ++ '=' :: (text.space ++ text.value)) := by
  obtain ⟨passed, whole, pos⟩ := here
  change source.toList = passed ++ s.rest at whole
  have same : passed = text.before := by
    refine eq_of_byteSize_eq (whole.symm.trans text.whole) ?_
    rw [← start, ← place, pos]
    exact (Nat.zero_add _).symm
  rw [same, text.whole] at whole
  exact (List.append_cancel_left whole).symm

/-- The place of the value in its source. -/
theorem pos_eq (here : (ofSource source).Reaches s) (ahead : s.rest = text.value) :
    s.pos = byteSize text.front := by
  obtain ⟨passed, whole, pos⟩ := here
  change source.toList = passed ++ s.rest at whole
  rw [text.front_append, ahead] at whole
  rw [pos, List.append_cancel_right whole]
  exact Nat.zero_add _

/-- The name of the attribute is the run of characters up to the white space or the equals sign. -/
theorem count_name (here : (ofSource source).Reaches s) (place : s.pos = text.start) :
    s.count (fun c => !endsAttributeName c) = text.name.length := by
  have ends : EndsRun (fun c => !endsAttributeName c)
      (text.gap ++ '=' :: (text.space ++ text.value)) := by
    cases gap : text.gap with
    | nil => exact endsRun_cons (by decide)
    | cons c others =>
      have blank := List.all_eq_true.1 text.gapBlank c (gap ▸ List.mem_cons_self)
      exact endsRun_cons (by simp [endsAttributeName, blank])
  rw [count, text.rest_eq here place, takeWhile_until (List.all_eq_true.1 text.named) ends]

/-- The value is read where it stands. -/
theorem exists_optionalValue (here : (ofSource source).Reaches s) (place : s.pos = text.start) :
    ∃ t : Scan, (ofSource source).Reaches t ∧ t.rest = text.value ∧
      (s.skip text.name.length).optionalValue = t.attributeValue := by
  have toName := lands_skip (text.rest_eq here place) rfl
  have sign : EndsRun isBlank ('=' :: (text.space ++ text.value)) := endsRun_cons (by decide)
  have toSign := lands_skipBlank toName.ahead (List.all_eq_true.1 text.gapBlank) sign
  refine ⟨((s.skip text.name.length).skipBlank.skip 1).skipBlank, ?_, ?_, ?_⟩
  · have reached := (here.skip text.name.length).trans (reaches_skipBlank _)
    exact (reached.skip 1).trans (reaches_skipBlank _)
  · have behind : ((s.skip text.name.length).skipBlank.skip 1).rest = text.space ++ text.value := by
      rw [rest_skip, toSign.ahead, List.drop_one, List.tail_cons]
    exact (lands_skipBlank behind (List.all_eq_true.1 text.spaceBlank) text.begins).ahead
  · unfold optionalValue
    rw [if_pos]
    rw [startsWith, toSign.ahead]
    rfl

/-- What is read where the attribute stands: its name, and the value behind the equals sign. -/
theorem exists_read (here : (ofSource source).Reaches s) (read : s.readAttribute.1 = some a)
    (accepted : s.readAttribute.2.errors = []) (place : a.start? = some text.start) :
    s.pos = text.start ∧ ∃ t : Scan, (ofSource source).Reaches t ∧ t.rest = text.value ∧
      t.attributeValue.2.errors = [] ∧
      a = namedAttribute ⟨s.pos, t.attributeValue.2.pos⟩ (String.ofList text.name)
        t.attributeValue.1 := by
  unfold readAttribute at read accepted
  split at read
  · obtain ⟨e, _, braced⟩ := Option.bind_eq_some_iff.1 read
    rw [start?_bracedAttribute braced] at place
    cases place
  · rename_i noBrace
    rw [if_neg noBrace] at accepted
    split at read
    · cases read
    · rename_i n count
      rw [count] at accepted
      cases Option.some.inj read
      have start : s.pos = text.start := by
        rw [attributeNamed, start?_namedAttribute] at place
        exact Option.some.inj place
      obtain ⟨t, toValue, value, same⟩ := text.exists_optionalValue here start
      have length : n + 1 = text.name.length := count.symm.trans (text.count_name here start)
      rw [← length] at same
      have name : s.rest.take (n + 1) = text.name := by
        rw [text.rest_eq here start, length, List.take_left]
      refine ⟨start, t, toValue, value, same ▸ accepted, ?_⟩
      rw [attributeNamed, same, name]

/-- A plain attribute or a directive is read with the expressions that are written in its value, or
with none. -/
theorem expressions_of_read (here : (ofSource source).Reaches s)
    (read : s.readAttribute.1 = some a) (accepted : s.readAttribute.2.errors = [])
    (place : a.start? = some text.start) :
    a.expressions = if a.keeps text.value then text.expressions else [] := by
  obtain ⟨_, t, toValue, value, clean, named⟩ := text.exists_read here read accepted place
  have ⟨parts, sole⟩ := expressions_attributeValue toValue clean
  rw [value, text.pos_eq toValue value] at parts sole
  exact expressions_namedAttribute named.symm parts sole

end Assignment

end TypedSvelte.Markup
