import TypedSvelte.Proofs.Markup.Containment
import TypedSvelte.Proofs.Markup.RenderedNodes

/-!
# How far readers look ahead

A reader that leaves at least the last `k` characters of the source does the same whatever these
are: it commutes with their replacement (`Scan.swap`). Most readers decide by the characters they
pass. A reader that stops before a character of a class has to see that character, so it must
leave more than `k`. A text alone is ended by what follows it, and must still be ended by the
replacement (`Reading.Takes.swap`).
-/
namespace TypedSvelte

/-- The text with its last `k` characters replaced. -/
def swapEnd (k : Nat) (tail text : List Char) : List Char := text.take (text.length - k) ++ tail

section

variable {k n : Nat} {tail text : List Char} {c : Char}

theorem drop_swapEnd (left : n + k ≤ text.length) :
    (swapEnd k tail text).drop n = swapEnd k tail (text.drop n) := by
  have kept : n ≤ (text.take (text.length - k)).length := by
    rw [List.length_take]
    omega
  unfold swapEnd
  rw [List.drop_append_of_le_length kept, List.drop_take, List.length_drop,
    Nat.sub_right_comm]

theorem take_swapEnd (left : n + k ≤ text.length) : (swapEnd k tail text).take n = text.take n := by
  have kept : n ≤ (text.take (text.length - k)).length := by
    rw [List.length_take]
    omega
  unfold swapEnd
  rw [List.take_append_of_le_length kept, List.take_take, Nat.min_eq_left (by omega)]

theorem swapEnd_cons (left : k ≤ text.length) :
    swapEnd k tail (c :: text) = c :: swapEnd k tail text := by
  unfold swapEnd
  rw [List.length_cons, Nat.succ_sub left]
  rfl

theorem swapEnd_append {front : List Char} : swapEnd text.length tail (front ++ text) = front ++ tail := by
  unfold swapEnd
  rw [List.length_append, Nat.add_sub_cancel, List.take_left]

/-- The characters that are kept, and those that are not. -/
theorem exists_kept (left : k ≤ text.length) : ∃ kept last, text = kept ++ last ∧ last.length = k := by
  refine ⟨text.take (text.length - k), text.drop (text.length - k),
    (List.take_append_drop _ _).symm, ?_⟩
  rw [List.length_drop]
  omega

private theorem isPrefixOf_swapEnd {literal : List Char} (left : literal.length + k ≤ text.length) :
    literal.isPrefixOf (swapEnd k tail text) = literal.isPrefixOf text := by
  rw [Bool.eq_iff_iff, List.isPrefixOf_iff_prefix, List.isPrefixOf_iff_prefix,
    List.prefix_iff_eq_take, List.prefix_iff_eq_take, take_swapEnd left]

theorem takeWhile_swapEnd {p : Char → Bool} (left : (text.takeWhile p).length + k < text.length) :
    (swapEnd k tail text).takeWhile p = text.takeWhile p := by
  obtain ⟨kept, last, rfl, rfl⟩ := exists_kept (Nat.le_trans (Nat.le_add_left _ _) left.le)
  have short : (kept.takeWhile p).length < kept.length := by
    rw [List.takeWhile_append, List.length_append] at left
    split at left
    · rw [List.length_append] at left
      omega
    · omega
  rw [swapEnd_append, Markup.takeWhile_append_ended (.inl short),
    Markup.takeWhile_append_ended (.inl short)]

theorem findIdx?_swapEnd {p : Char → Bool} (found : text.findIdx? p = some n)
    (left : n + 1 + k ≤ text.length) : (swapEnd k tail text).findIdx? p = some n := by
  obtain ⟨kept, last, rfl, rfl⟩ := exists_kept (Nat.le_trans (Nat.le_add_left _ _) left)
  rw [List.length_append] at left
  rw [swapEnd_append]
  rw [List.findIdx?_append] at found ⊢
  cases first : kept.findIdx? p with
  | some m =>
    rw [first] at found
    exact found
  | none =>
    rw [first, Option.none_or] at found
    obtain ⟨m, _, rfl⟩ := Option.map_eq_some_iff.1 found
    omega

theorem findText?_swapEnd {pattern : List Char} (found : findText? pattern text = some n)
    (left : n + pattern.length + k ≤ text.length) :
    findText? pattern (swapEnd k tail text) = some n := by
  obtain ⟨kept, last, rfl, rfl⟩ := exists_kept (Nat.le_trans (Nat.le_add_left _ _) left)
  rw [List.length_append] at left
  rw [swapEnd_append]
  exact findText?_append (findText?_of_append found (by omega))

end

namespace Markup

variable {k n : Nat} {tail : List Char}

/-- A piece that ends inside the text is the same whatever follows the text. -/
theorem lexeme_same {c : Char} {front after other : List Char}
    (inside : (lexeme c (front ++ after)).2 < front.length) :
    lexeme c (front ++ other) = lexeme c (front ++ after) := by
  have finished : unfinished c front = false := by
    by_contra isUnfinished
    have takes := @lexeme_takes c front [] after ((Bool.not_eq_false _).mp isUnfinished) nofun
    rw [List.nil_append, List.length_nil] at takes
    omega
  have shorter : (lexeme c front).2 < front.length := by
    cases leads c with
    | single read _ =>
      rw [read] at inside
      rw [read]
      exact inside
    | run _ kind p _ read _ =>
      rw [read] at inside
      rw [read]
      rw [List.takeWhile_append] at inside
      split at inside
      · simp only [List.length_append] at inside
        omega
      · exact inside
    | quote isQuote =>
      have ends : quotedReach c front ≠ ⟨front.length, false⟩ := by
        rcases isQuote with rfl | rfl <;> simpa [unfinished] using finished
      have backslash : c ≠ '\\' := by rcases isQuote with rfl | rfl <;> decide
      rw [lexeme_quote isQuote, quotedReach_append backslash ends] at inside
      rw [lexeme_quote isQuote]
      exact inside
    | backquote isBackquote =>
      subst isBackquote
      have ends : (templateReach 0 front).complete = true := by simpa [unfinished] using finished
      rw [lexeme_backquote, templateReach_append ends] at inside
      rw [lexeme_backquote]
      exact inside
    | slash isSlash =>
      subst isSlash
      cases front with
      | nil => cases inside
      | cons d tail =>
        by_cases line : d = '/'
        · subst line
          have newline : '\n' ∈ tail := by simpa [unfinished] using finished
          have short := length_takeWhile_lt (p := (· != '\n')) newline rfl
          rw [lexeme_line]
          dsimp only [List.length_cons]
          omega
        by_cases block : d = '*'
        · subst block
          have ends : (blockCommentReach tail).complete = true := by
            simpa [unfinished] using finished
          rw [List.cons_append, lexeme_block, blockCommentReach_append ends] at inside
          rw [lexeme_block]
          exact inside
        · rw [lexeme_slash fun e first => by cases first; exact ⟨line, block⟩]
          exact Nat.succ_pos _
  rw [lexeme_append finished (.inr (.inl shorter)), lexeme_append finished (.inr (.inl shorter))]

/-- The closing brace of a text is found without looking at what follows it. -/
theorem closingBraceFrom_same {front after other : List Char} {depth : Nat}
    (found : closingBraceFrom depth (front ++ after) = some n) (inside : n < front.length) :
    closingBraceFrom depth (front ++ other) = some n := by
  -- a piece before the brace, and the search behind it
  have piece {c : Char} {rest front : List Char} {kind? : Option TokenKind} {length n inner : Nat}
      (whole : front ++ after = c :: rest) (inside : n < front.length)
      (read : lexeme c rest = (kind?, length))
      (ih : ∀ (m : Nat) (front : List Char), m < front.length → front ++ after = rest.drop length →
        closingBraceFrom inner (rest.drop length) = some m →
        closingBraceFrom inner (front ++ other) = some m)
      (found : (closingBraceFrom inner (rest.drop length)).map (· + (length + 1)) = some n) :
      ∃ cs, front = c :: cs ∧ lexeme c (cs ++ other) = (kind?, length) ∧
        (closingBraceFrom inner ((cs ++ other).drop length)).map (· + (length + 1)) = some n := by
    obtain ⟨m, later, rfl⟩ := Option.map_eq_some_iff.1 found
    cases front with
    | nil => cases inside
    | cons d cs =>
      rw [List.cons_append] at whole
      obtain ⟨rfl, rfl⟩ := List.cons.inj whole
      rw [List.length_cons] at inside
      have size : (lexeme d (cs ++ after)).2 < cs.length := by
        rw [read]
        omega
      refine ⟨cs, rfl, (lexeme_same size).trans read, ?_⟩
      rw [List.drop_append_of_le_length (by omega), ih m (cs.drop length) ?_ ?_ later]
      · rfl
      · rw [List.length_drop]
        omega
      · rw [List.drop_append_of_le_length (by omega)]
  generalize whole : front ++ after = text at found
  fun_induction closingBraceFrom depth text generalizing front n with
  | case1 => cases found
  | case2 c rest length next depth read =>
    rename_i ih
    obtain ⟨cs, rfl, same, later⟩ := piece whole inside read (fun _ _ => ih (depth + 1)) found
    rw [List.cons_append, closingBraceFrom, same]
    exact later
  | case3 c rest length read =>
    obtain ⟨rfl, _⟩ := lexeme_mark read rfl
    cases front with
    | nil => cases inside
    | cons d cs =>
      cases (List.cons.inj whole).1
      rw [List.cons_append, closingBraceFrom]
      exact found
  | case4 c rest length next depth read =>
    rename_i ih
    obtain ⟨cs, rfl, same, later⟩ := piece whole inside read (fun _ _ => ih depth) found
    rw [List.cons_append, closingBraceFrom, same]
    exact later
  | case5 c rest kind? length read next depth notOpening notLast notClosing =>
    rename_i ih
    obtain ⟨cs, rfl, same, later⟩ := piece whole inside read (fun _ _ => ih depth) found
    rw [List.cons_append, closingBraceFrom, same]
    dsimp only
    split
    · exact (notOpening rfl).elim
    · exact (notLast rfl rfl).elim
    · exact (notClosing _ rfl rfl).elim
    · exact later

theorem closingBrace?_swapEnd {text : List Char} (found : closingBrace? text = some n)
    (left : n + 1 + k ≤ text.length) : closingBrace? (swapEnd k tail text) = some n := by
  obtain ⟨kept, last, rfl, rfl⟩ := exists_kept (Nat.le_trans (Nat.le_add_left _ _) left)
  rw [List.length_append] at left
  rw [swapEnd_append]
  exact closingBraceFrom_same found (by omega)

namespace Scan

/-- The same place in a source whose last `k` characters are others. -/
def swap (k : Nat) (tail : List Char) (s : Scan) : Scan := { s with rest := swapEnd k tail s.rest }

variable {s : Scan}

theorem startsWith_swap {literal : String} (size : literal.toList.length = n)
    (left : n + k ≤ s.rest.length) :
    (s.swap k tail).startsWith literal = s.startsWith literal :=
  isPrefixOf_swapEnd (size.symm ▸ left)

theorem Reaches.length_le {t : Scan} (reached : s.Reaches t) : t.rest.length ≤ s.rest.length := by
  obtain ⟨passed, rest, _⟩ := reached
  rw [rest, List.length_append]
  exact Nat.le_add_left _ _

/-- The first character ahead is kept. -/
theorem rest_swap (tail : List Char) {c : Char} {rest : List Char} (ahead : s.rest = c :: rest)
    (left : k < s.rest.length) : (s.swap k tail).rest = c :: swapEnd k tail rest := by
  rw [ahead, List.length_cons] at left
  unfold swap
  rw [ahead, swapEnd_cons (Nat.le_of_lt_succ left)]

theorem count_swap {p : Char → Bool} (left : k < (s.skip (s.count p)).rest.length) :
    (s.swap k tail).count p = s.count p := by
  rw [rest_skip, List.length_drop] at left
  exact congrArg List.length (takeWhile_swapEnd (by unfold count at left; omega))

section

variable (positive : 0 < k)

include positive

theorem le_of_skip (left : k ≤ (s.skip n).rest.length) : n + k ≤ s.rest.length := by
  rw [rest_skip, List.length_drop] at left
  omega

theorem skip_swap (left : k ≤ (s.skip n).rest.length) :
    (s.swap k tail).skip n = (s.skip n).swap k tail := by
  have bound := le_of_skip positive left
  unfold skip swap
  dsimp only
  rw [take_swapEnd bound, drop_swapEnd bound]

theorem take_rest_swap (left : k ≤ (s.skip n).rest.length) :
    (s.swap k tail).rest.take n = s.rest.take n :=
  take_swapEnd (le_of_skip positive left)

theorem rawText_swap (left : k ≤ (s.skip n).rest.length) :
    (s.swap k tail).rawText n = s.rawText n := by
  unfold rawText
  rw [skip_swap positive left, take_rest_swap positive left]
  rfl

private theorem skipBlank_swap (left : k < s.skipBlank.rest.length) :
    (s.swap k tail).skipBlank = s.skipBlank.swap k tail := by
  unfold skipBlank at left ⊢
  rw [count_swap left]
  exact skip_swap positive left.le

theorem word_swap (left : k < s.word.2.rest.length) :
    (s.swap k tail).word = (s.word.1, s.word.2.swap k tail) := by
  have found : (s.swap k tail).count isIdentChar = s.count isIdentChar := count_swap left
  unfold word at left ⊢
  dsimp only
  rw [found, skip_swap positive left.le, take_rest_swap positive left.le]

/-- Without a character to stop at, nothing is left. -/
theorem skipPast_swap {c : Char} (left : k ≤ (s.skipPast c).rest.length) :
    (s.swap k tail).skipPast c = (s.skipPast c).swap k tail := by
  unfold skipPast at left ⊢
  cases found : s.rest.findIdx? (· == c) with
  | some n =>
    rw [found] at left
    have bound := le_of_skip positive left
    have same : (s.swap k tail).rest.findIdx? (· == c) = some n := findIdx?_swapEnd found bound
    rw [same]
    exact skip_swap positive left
  | none =>
    rw [found] at left
    simp only [skipAll, rest_skip, List.drop_length, List.length_nil] at left
    omega

/-- An expression that ends inside the source ends before its closing brace. -/
theorem expression_found {opening : Nat} (left : k ≤ (s.expression opening).2.rest.length) :
    ∃ n, closingBrace? s.rest = some n ∧ n + 1 + k ≤ s.rest.length ∧
      s.expression opening = (some (Expression.ofText s.pos (s.rest.take n)), s.skip (n + 1)) := by
  unfold expression at left ⊢
  cases found : closingBrace? s.rest with
  | some n =>
    rw [found] at left
    exact ⟨n, rfl, le_of_skip positive left, rfl⟩
  | none =>
    rw [found] at left
    simp only [skipAll, rest_fail, rest_skip, List.drop_length, List.length_nil] at left
    omega

theorem length_expression_lt {opening : Nat}
    (left : k ≤ (s.expression opening).2.rest.length) :
    (s.expression opening).2.rest.length < s.rest.length := by
  obtain ⟨n, _, bound, read⟩ := expression_found positive left
  rw [read, rest_skip, List.length_drop]
  omega

theorem expression_swap {opening : Nat} (left : k ≤ (s.expression opening).2.rest.length) :
    (s.swap k tail).expression opening =
      ((s.expression opening).1, (s.expression opening).2.swap k tail) := by
  obtain ⟨n, found, bound, read⟩ := expression_found positive left
  have same : closingBrace? (s.swap k tail).rest = some n := closingBrace?_swapEnd found bound
  have leftBehind : k ≤ (s.skip (n + 1)).rest.length := by
    rw [read] at left
    exact left
  rw [read, expression, same]
  dsimp only
  rw [skip_swap positive leftBehind, take_rest_swap positive]
  · rfl
  · rw [rest_skip, List.length_drop]
    omega

/-- A quoted value passes characters. -/
theorem length_quotedParts_lt {quote : Char} {opening : Nat}
    (left : k ≤ (s.quotedParts quote opening).2.rest.length) :
    (s.quotedParts quote opening).2.rest.length < s.rest.length := by
  fun_induction quotedParts s quote opening with
  | case1 s ended =>
    rw [rest_fail, ended, List.length_nil] at left
    omega
  | case2 s c rest ahead closes =>
    exact s.skip_lt 1 (by decide) (ahead ▸ List.cons_ne_nil _ _)
  | case3 s c rest ahead closes brace shorter more ih =>
    exact Nat.lt_of_le_of_lt (length_quotedParts_le _ _ _) shorter
  | case4 s c rest ahead closes brace n shorter more ih =>
    exact Nat.lt_of_le_of_lt (length_quotedParts_le _ _ _) shorter

private theorem quotedParts_swap {quote : Char} {opening : Nat}
    (left : k ≤ (s.quotedParts quote opening).2.rest.length) :
    (s.swap k tail).quotedParts quote opening =
      ((s.quotedParts quote opening).1, (s.quotedParts quote opening).2.swap k tail) := by
  fun_induction quotedParts s quote opening with
  | case1 s ended =>
    rw [rest_fail, ended, List.length_nil] at left
    omega
  | case2 s c rest ahead closes =>
    have more := s.skip_lt 1 (by decide) (ahead ▸ List.cons_ne_nil _ _)
    have begins := rest_swap tail ahead (Nat.lt_of_le_of_lt left more)
    rw [quotedParts.eq_def]
    split
    · rename_i ended
      cases begins.symm.trans ended
    · rename_i d other here
      cases begins.symm.trans here
      rw [if_pos closes, skip_swap positive left]
  | case3 s c rest ahead closes brace shorter more ih =>
    have onward := length_quotedParts_le ((s.skip 1).expression s.pos).2 quote opening
    have leftPart := Nat.le_trans left onward
    have leftOne := Nat.le_trans leftPart (length_expression_le (s.skip 1) s.pos)
    have begins := rest_swap tail ahead (Nat.lt_of_le_of_lt leftPart shorter)
    rw [quotedParts.eq_def]
    split
    · rename_i ended
      cases begins.symm.trans ended
    · rename_i d other here
      cases begins.symm.trans here
      have expression : ((s.swap k tail).skip 1).expression (s.swap k tail).pos =
          (((s.skip 1).expression s.pos).1, ((s.skip 1).expression s.pos).2.swap k tail) := by
        rw [skip_swap positive leftOne]
        exact expression_swap positive leftPart
      rw [if_neg closes, if_pos brace]
      dsimp only
      rw [expression, ih left]
  | case4 s c rest ahead closes brace n shorter more ih =>
    have further := length_quotedParts_lt positive left
    have begins := rest_swap tail ahead (Nat.lt_of_le_of_lt left (Nat.lt_trans further shorter))
    have run : k < (s.skip n).rest.length := Nat.lt_of_le_of_lt left further
    rw [quotedParts.eq_def]
    split
    · rename_i ended
      cases begins.symm.trans ended
    · rename_i d other here
      cases begins.symm.trans here
      have length : 1 + ((s.swap k tail).rest.tail.takeWhile
          fun d => d != quote && d != '{').length = n := by
        have size : n = 1 + (rest.takeWhile fun d => d != quote && d != '{').length :=
          congrArg (fun ahead : List Char =>
            1 + (ahead.tail.takeWhile fun d => d != quote && d != '{').length) ahead
        have same : (swapEnd k tail rest).takeWhile (fun d => d != quote && d != '{') =
            rest.takeWhile fun d => d != quote && d != '{' := by
          apply takeWhile_swapEnd
          rw [rest_skip, ahead, List.length_drop, List.length_cons] at run
          omega
        rw [begins, List.tail_cons, same, size]
      rw [if_neg closes, if_neg brace]
      dsimp only
      rw [length, skip_swap positive run.le, rawText_swap positive run.le, ih left]

private theorem attributeValue_swap (left : k < s.attributeValue.2.rest.length) :
    (s.swap k tail).attributeValue = (s.attributeValue.1, s.attributeValue.2.swap k tail) := by
  have kept : k < s.rest.length := Nat.lt_of_lt_of_le left (length_attributeValue_le s)
  have one : k ≤ (s.skip 1).rest.length := by
    rw [rest_skip, List.length_drop]
    omega
  have pos : (s.swap k tail).pos = s.pos := rfl
  unfold attributeValue at left ⊢
  rw [skip_swap positive one, pos]
  split at left
  · rename_i rest ahead
    rw [rest_swap tail ahead kept]
    exact quotedParts_swap positive left.le
  · rename_i rest ahead
    rw [rest_swap tail ahead kept]
    exact quotedParts_swap positive left.le
  · rename_i rest ahead
    rw [rest_swap tail ahead kept]
    dsimp only at left ⊢
    rw [expression_swap positive left.le]
    rfl
  · rename_i double single brace
    obtain ⟨c, rest, ahead⟩ :=
      List.exists_cons_of_length_pos (Nat.lt_of_le_of_lt (Nat.zero_le k) kept)
    rw [rest_swap tail ahead kept]
    dsimp only at left ⊢
    rw [count_swap left, skip_swap positive left.le, rawText_swap positive left.le]
    split
    · rename_i other here
      cases here
      exact (double rest ahead).elim
    · rename_i other here
      cases here
      exact (single rest ahead).elim
    · rename_i other here
      cases here
      exact (brace rest ahead).elim
    · rfl

private theorem optionalValue_swap (left : k < s.optionalValue.2.skipBlank.rest.length) :
    (s.swap k tail).optionalValue = (s.optionalValue.1, s.optionalValue.2.swap k tail) := by
  unfold optionalValue at left ⊢
  split at left
  · rename_i sign
    have leftValue := Nat.lt_of_lt_of_le left (length_skipBlank_le _)
    have leftBlank := Nat.lt_of_lt_of_le leftValue (length_attributeValue_le _)
    have leftSign := Nat.lt_of_lt_of_le leftBlank (length_skipBlank_le _)
    have leftStart := Nat.lt_of_lt_of_le leftSign (length_skip_le _ _)
    have same : (s.skipBlank.swap k tail).startsWith "=" = s.skipBlank.startsWith "=" :=
      startsWith_swap rfl (le_of_skip positive leftSign.le)
    rw [skipBlank_swap positive leftStart, same, if_pos sign, if_pos sign,
      skip_swap positive leftSign.le, skipBlank_swap positive leftBlank,
      attributeValue_swap positive leftValue]
  · rename_i sign
    have same : (s.skipBlank.swap k tail).startsWith "=" = s.skipBlank.startsWith "=" :=
      startsWith_swap rfl (Nat.add_comm k 1 ▸ left)
    rw [skipBlank_swap positive left, same, if_neg sign, if_neg sign]

private theorem attributeNamed_swap (left : k < (s.attributeNamed n).2.skipBlank.rest.length) :
    (s.swap k tail).attributeNamed n =
      ((s.attributeNamed n).1, (s.attributeNamed n).2.swap k tail) := by
  have leftName : k ≤ (s.skip n).rest.length :=
    (Nat.lt_of_lt_of_le left (Nat.le_trans (length_skipBlank_le _) (length_optionalValue_le _))).le
  unfold attributeNamed at left ⊢
  dsimp only
  rw [skip_swap positive leftName, optionalValue_swap positive left,
    take_rest_swap positive leftName]
  rfl

private theorem readAttribute_swap (left : k < s.readAttribute.2.skipBlank.rest.length) :
    (s.swap k tail).readAttribute = (s.readAttribute.1, s.readAttribute.2.swap k tail) := by
  have pos : (s.swap k tail).pos = s.pos := rfl
  have brace (one : k ≤ (s.skip 1).rest.length) :
      (s.swap k tail).startsWith "\x7b" = s.startsWith "\x7b" :=
    startsWith_swap rfl (le_of_skip positive one)
  by_cases opens : s.startsWith "\x7b" = true
  · have read : s.readAttribute =
        (((s.skip 1).expression s.pos).1.bind bracedAttribute?,
          ((s.skip 1).expression s.pos).2) := by
      rw [readAttribute, if_pos opens]
    rw [read] at left ⊢
    have leftBody := Nat.lt_of_lt_of_le left (length_skipBlank_le _)
    have one := Nat.le_trans leftBody.le (length_expression_le _ _)
    rw [readAttribute, brace one, if_pos opens, pos, skip_swap positive one,
      expression_swap positive leftBody.le]
  cases run : s.count (fun c => !endsAttributeName c) with
  | zero =>
    have read : s.readAttribute = (none, s.skip 1) := by rw [readAttribute, if_neg opens, run]
    rw [read] at left ⊢
    have one := Nat.lt_of_lt_of_le left (length_skipBlank_le _)
    have same : (s.swap k tail).count (fun c => !endsAttributeName c) = 0 := by
      rw [count_swap, run]
      rw [run]
      exact Nat.lt_of_lt_of_le one (s.length_skip_le 1)
    rw [readAttribute, brace one.le, if_neg opens, same, skip_swap positive one.le]
  | succ n =>
    have read : s.readAttribute =
        (some (s.attributeNamed (n + 1)).1, (s.attributeNamed (n + 1)).2) := by
      rw [readAttribute, if_neg opens, run]
    rw [read] at left ⊢
    have named := Nat.lt_of_lt_of_le left (Nat.le_trans (length_skipBlank_le _)
      (length_optionalValue_le (s.skip (n + 1))))
    have one : k ≤ (s.skip 1).rest.length := by
      rw [rest_skip, List.length_drop] at named ⊢
      omega
    have same : (s.swap k tail).count (fun c => !endsAttributeName c) = n + 1 := by
      rw [count_swap, run]
      rw [run]
      exact named
    rw [readAttribute, brace one, if_neg opens, same]
    dsimp only
    rw [attributeNamed_swap positive left]

omit positive in
/-- Attributes pass the white space before them. -/
theorem length_attributes_le_blank (s : Scan) :
    s.attributes.2.rest.length ≤ s.skipBlank.rest.length := by
  fun_induction attributes s with
  | case1 s here ended => exact Nat.le_refl _
  | case2 s here ended atEnd => exact Nat.le_refl _
  | case3 s here ended atEnd shorter more ih =>
    exact Nat.le_trans (length_attributes_le _) (here.readAttribute_lt ended).le

/-- The attributes up to the end of a tag, of which the mark at the end is kept. -/
theorem attributes_swap (left : k < s.attributes.2.rest.length)
    (closing : s.attributes.2.startsWith "/>" = true → 2 + k ≤ s.attributes.2.rest.length) :
    (s.swap k tail).attributes = (s.attributes.1, s.attributes.2.swap k tail) := by
  have filled {s : Scan} (left : k < s.rest.length) : (s.swap k tail).rest ≠ [] := by
    obtain ⟨c, rest, ahead⟩ :=
      List.exists_cons_of_length_pos (Nat.lt_of_le_of_lt (Nat.zero_le k) left)
    rw [rest_swap tail ahead left]
    exact List.cons_ne_nil _ _
  have ends {s : Scan} (left : k < s.rest.length) :
      (s.swap k tail).startsWith ">" = s.startsWith ">" :=
    startsWith_swap rfl (Nat.add_comm k 1 ▸ left)
  have closes {s : Scan} (left : 2 + k ≤ s.rest.length) :
      (s.swap k tail).startsWith "/>" = s.startsWith "/>" := startsWith_swap rfl left
  fun_induction attributes s with
  | case1 s here ended =>
    dsimp only at left
    rw [ended] at left
    cases left
  | case2 s here ended atEnd =>
    dsimp only at left closing
    rw [attributes]
    dsimp only
    rw [skipBlank_swap positive left, dif_neg (filled left), if_pos]
    rw [ends left]
    rcases Bool.or_eq_true_iff.1 atEnd with mark | mark
    · rw [mark]
      rfl
    · rw [closes (closing mark), mark, Bool.or_true]
  | case3 s here ended atEnd shorter more ih =>
    dsimp only at left closing
    have behind : k < here.readAttribute.2.skipBlank.rest.length :=
      Nat.lt_of_lt_of_le left (length_attributes_le_blank _)
    have passes := here.readAttribute_lt ended
    have after := length_skipBlank_le here.readAttribute.2
    have two : 2 + k ≤ here.rest.length := by omega
    have leftHere : k < here.rest.length := by omega
    rw [attributes]
    dsimp only
    rw [skipBlank_swap positive leftHere, dif_neg (filled leftHere), if_neg,
      readAttribute_swap positive behind, ih left closing]
    rw [ends leftHere, closes two]
    exact atEnd

end

/-- The first `c` ahead is passed, and what comes behind it is left. -/
def Stops (k : Nat) (s : Scan) (c : Char) : Prop :=
  ∃ n, s.rest.findIdx? (· == c) = some n ∧ n + 1 + k ≤ s.rest.length

theorem rest_swap_two (tail : List Char) {c d : Char} {rest : List Char}
    (ahead : s.rest = c :: d :: rest) (left : 2 + k ≤ s.rest.length) :
    (s.swap k tail).rest = c :: d :: swapEnd k tail rest := by
  rw [rest_swap tail ahead (by omega), swapEnd_cons]
  rw [ahead, List.length_cons, List.length_cons] at left
  omega

private theorem Stops.of_drop {c : Char} (found : [c] <+: s.rest.drop n) (left : n + 1 + k ≤ s.rest.length) :
    Stops k s c := by
  have inside : n < s.rest.length := by omega
  have here : s.rest[n] = c := by
    obtain ⟨rest, whole⟩ := found
    rw [List.drop_eq_getElem_cons inside] at whole
    exact (List.cons.inj whole).1.symm
  cases first : s.rest.findIdx? (· == c) with
  | none =>
    have absent := List.findIdx?_eq_none_iff.1 first s.rest[n] (List.getElem_mem inside)
    rw [here, beq_self_eq_true] at absent
    cases absent
  | some m =>
    obtain ⟨_, _, before⟩ := List.findIdx?_eq_some_iff_getElem.1 first
    have bound : m ≤ n := by
      apply Nat.le_of_not_lt
      intro later
      exact before n later (by rw [here, beq_self_eq_true])
    exact ⟨m, first, by omega⟩

/-- A word in which the character does not occur is ahead exactly if it was before. -/
theorem Stops.isPrefixOf (tail : List Char) {c : Char} (stops : Stops k s c) {literal : List Char}
    (absent : c ∉ literal) : literal.isPrefixOf (s.swap k tail).rest = literal.isPrefixOf s.rest ∧
      (literal.isPrefixOf s.rest = true → literal.length + 1 + k ≤ s.rest.length) := by
  obtain ⟨n, found, left⟩ := stops
  -- a longer word would hold the character
  have never {text : List Char} (found : text.findIdx? (· == c) = some n)
      (longer : n < literal.length) : literal.isPrefixOf text = false := by
    rw [Bool.eq_false_iff, ne_eq, List.isPrefixOf_iff_prefix]
    intro begins
    obtain ⟨inside, isC, _⟩ := List.findIdx?_eq_some_iff_getElem.1 found
    have member : text[n] ∈ literal := by
      rw [← begins.getElem longer]
      exact List.getElem_mem longer
    rw [eq_of_beq isC] at member
    exact absent member
  by_cases longer : n < literal.length
  · rw [never found longer]
    exact ⟨never (findIdx?_swapEnd found left) longer, nofun⟩
  · exact ⟨isPrefixOf_swapEnd (by omega), fun _ => by omega⟩

theorem Stops.atWord (stops : Stops k s '}') {before word : String}
    (absent : '}' ∉ (before ++ word).toList) :
    (s.swap k tail).atWord before word = s.atWord before word := by
  obtain ⟨same, longer⟩ := stops.isPrefixOf tail absent
  unfold Scan.atWord startsWith
  rw [same]
  cases begins : (before ++ word).toList.isPrefixOf s.rest with
  | false => rfl
  | true =>
    have left := longer begins
    have size : (before ++ word).toList.length = before.length + word.length := by
      rw [String.toList_append, List.length_append]
      rfl
    have dropped : (s.swap k tail).rest.drop (before.length + word.length) =
        swapEnd k tail (s.rest.drop (before.length + word.length)) := drop_swapEnd (by omega)
    obtain ⟨c, rest, ahead⟩ := List.exists_cons_of_length_pos
      (l := s.rest.drop (before.length + word.length)) (by rw [List.length_drop]; omega)
    have kept := congrArg List.length ahead
    rw [List.length_drop, List.length_cons] at kept
    rw [dropped, ahead, swapEnd_cons (by omega)]
    rfl

theorem Stops.of_skip {c : Char} (stops : Stops k (s.skip n) c) : Stops k s c := by
  obtain ⟨m, found, left⟩ := stops
  obtain ⟨inside, isC, _⟩ := List.findIdx?_eq_some_iff_getElem.1 found
  have size : (s.skip n).rest.length = s.rest.length - n := List.length_drop
  refine .of_drop (n := n + m) ⟨s.rest.drop (n + m + 1), ?_⟩ (by omega)
  have within : n + m < s.rest.length := by omega
  have here : s.rest[n + m] = c := by
    rw [← eq_of_beq isC]
    simp only [rest_skip, List.getElem_drop]
  rw [List.drop_eq_getElem_cons within, here]
  rfl

/-- The character is not one of those passed first. -/
theorem Stops.skip {c : Char} (stops : Stops k s c) (before : c ∉ s.rest.take n) :
    Stops k (s.skip n) c := by
  obtain ⟨m, found, left⟩ := stops
  obtain ⟨inside, isC, _⟩ := List.findIdx?_eq_some_iff_getElem.1 found
  have bound : n ≤ m := by
    apply Nat.le_of_not_lt
    intro early
    apply before
    rw [← eq_of_beq isC]
    exact List.mem_take_iff_getElem.2 ⟨m, by omega, rfl⟩
  have size : (s.skip n).rest.length = s.rest.length - n := List.length_drop
  refine .of_drop (n := m - n) ⟨s.rest.drop (m + 1), ?_⟩ (by omega)
  rw [rest_skip, List.drop_drop, Nat.add_sub_cancel' bound, List.drop_eq_getElem_cons inside,
    eq_of_beq isC]
  rfl

/-- A run of other characters ends where the character is found. -/
theorem Stops.takeWhile {c : Char} (stops : Stops k s c) {p : Char → Bool} (other : p c = false) :
    (s.rest.takeWhile p).length + k < s.rest.length := by
  obtain ⟨n, found, left⟩ := stops
  obtain ⟨inside, isC, _⟩ := List.findIdx?_eq_some_iff_getElem.1 found
  have bound : (s.rest.takeWhile p).length ≤ n := by
    apply Nat.le_of_not_lt
    intro longer
    have holds := List.mem_takeWhile_imp (List.getElem_mem longer)
    rw [(List.takeWhile_prefix p).getElem longer, eq_of_beq isC, other] at holds
    cases holds
  omega

section

variable (positive : 0 < k)

include positive

theorem stops_of_skipPast {c : Char} (left : k ≤ (s.skipPast c).rest.length) : Stops k s c := by
  unfold skipPast at left
  cases found : s.rest.findIdx? (· == c) with
  | none =>
    rw [found] at left
    simp [skipAll] at left
    omega
  | some n =>
    rw [found] at left
    exact ⟨n, found, le_of_skip positive left⟩

theorem stops_of_expression {opening : Nat} (left : k ≤ (s.expression opening).2.rest.length) :
    Stops k s '}' := by
  obtain ⟨n, found, bound, _⟩ := expression_found positive left
  exact .of_drop (begins_of_closingBraceFrom n found) bound

end

end Scan

end Markup

end TypedSvelte
