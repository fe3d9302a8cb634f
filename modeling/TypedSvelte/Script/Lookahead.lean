import TypedSvelte.Script.Token

/-!
# How far a token looks

A token is recognised by its own text and, unless nothing could have made it another one, by the
character behind it. So the first token of a text is the same in every text that agrees with it that
far (`lex_append`).
-/
namespace TypedSvelte.Script

/-- The punctuation that no longer one begins with. -/
def closedPunctuation : List String :=
  ["\x7b", "\x7d", "(", ")", "[", "]", ";", ",", ":", "~", "`"]

/-- How many bytes behind a token it has been looked at to recognise it, the text behind it being
given; none if it may have been all of them. -/
def TokenKind.reach? (kind : TokenKind) (rest : List Char) : Option Nat :=
  match kind with
  | .invalid _ | .endOfText => none
  | .punct p =>
    if closedPunctuation.contains p then some 0
    else match rest with
      | [] => none
      | c :: _ =>
        if ((p == "." || p == "?") && c == '.') || (p == "<" && c == '!') then none
        else some c.utf8Size
  | .word _ _ | .privateName _ | .number | .string _ => rest.head?.map Char.utf8Size

/-- The token, with this text behind it, has been recognised by what comes before byte `limit`. -/
def Token.isSettled (t : Token) (rest : List Char) (limit : Nat) : Bool :=
  (t.kind.reach? rest).any (t.stop + · ≤ limit)

section

variable {w x y : List Char} {isDigit : Char → Bool} {before : Nat}

theorem nameLength_append (state : Escape)
    (short : nameLength state (w ++ x) < w.length) :
    nameLength state (w ++ y) = nameLength state (w ++ x) := by
  induction w generalizing state with
  | nil => exact absurd short (Nat.not_lt_zero _)
  | cons c cs ih =>
    have later (state : Escape) (short : nameLength state (cs ++ x) + 1 < (c :: cs).length) :
        nameLength state (cs ++ y) = nameLength state (cs ++ x) :=
      ih state (Nat.lt_of_succ_lt_succ short)
    simp only [List.cons_append, nameLength] at short ⊢
    cases state <;> dsimp only at short ⊢
    all_goals (repeat' split at short) <;> simp_all

theorem name?_append {chars : List Char} {n : Nat}
    (found : name? (w ++ x) = some (chars, n)) (short : n < w.length) :
    name? (w ++ y) = some (chars, n) := by
  have length : n = nameLength .none (w ++ x) := by
    unfold name? at found
    simp only [Option.bind_eq_bind, Option.bind_eq_some_iff] at found
    obtain ⟨_, _, _, _, given⟩ := found
    split at given
    · cases given
      rfl
    · cases given
  have same := nameLength_append (y := y) .none (length ▸ short)
  unfold name? at found ⊢
  dsimp only at found ⊢
  rw [same, ← length, List.take_append_of_le_length (Nat.le_of_lt short)]
  rw [← length, List.take_append_of_le_length (Nat.le_of_lt short)] at found
  exact found

private theorem stringReach_plain (quote : Char) {c : Char} (plain : c ≠ '\\') (rest : List Char) :
    stringReach quote (c :: rest) =
      if c == '\n' || c == '\r' then (0, false)
      else if c == quote then (1, true)
      else ((stringReach quote rest).1 + 1, (stringReach quote rest).2) := by
  cases rest with
  | nil => cases same : c == quote <;> simp [stringReach, same]
  | cons d rest =>
    rw [stringReach, if_neg (by simpa using plain)]
    exact fun _ isSlash => absurd isSlash plain

private theorem stringReach_escape (quote : Char) {d : Char} {r : List Char}
    (unbroken : d = '\r' → r.head? ≠ some '\n') :
    stringReach quote ('\\' :: d :: r) =
      ((stringReach quote r).1 + 2, (stringReach quote r).2) := by
  rw [stringReach, if_pos (beq_self_eq_true _)]
  rintro others - rfl rfl
  exact unbroken rfl rfl

private theorem stringReach_slash_pos (quote : Char) (rest : List Char) :
    0 < (stringReach quote ('\\' :: rest)).1 := by
  match rest with
  | [] => simp [stringReach]
  | d :: others =>
    by_cases broken : d = '\r' ∧ others.head? = some '\n'
    · obtain ⟨rfl, lineEnd⟩ := broken
      obtain ⟨more, rfl⟩ := List.head?_eq_some_iff.1 lineEnd
      exact Nat.succ_pos _
    · rw [stringReach_escape quote fun isReturn lineEnd => broken ⟨isReturn, lineEnd⟩]
      exact Nat.succ_pos _

/-- A string that ends before its text does is the same whatever comes behind this text. -/
theorem stringReach_append (quote : Char) {w : List Char}
    (short : (stringReach quote (w ++ x)).1 < w.length) :
    stringReach quote (w ++ y) = stringReach quote (w ++ x) := by
  induction size : w.length using Nat.strongRecOn generalizing w with
  | _ size ih =>
  subst size
  cases w with
  | nil => exact absurd short (Nat.not_lt_zero _)
  | cons c others =>
    rw [List.cons_append] at short ⊢
    by_cases plain : c ≠ '\\'
    · rw [List.cons_append, stringReach_plain quote plain]
      rw [stringReach_plain quote plain] at short ⊢
      split
      · rfl
      split
      · rfl
      · rename_i notBreak notQuote
        rw [if_neg notBreak, if_neg notQuote] at short
        rw [ih others.length (Nat.lt_succ_self _) (Nat.lt_of_succ_lt_succ short) rfl]
    obtain rfl := Decidable.not_not.1 plain
    cases others with
    | nil => exact absurd short (Nat.not_lt_of_le (stringReach_slash_pos quote x))
    | cons d rest =>
      by_cases broken : d = '\r' ∧ (rest ++ x).head? = some '\n'
      · obtain ⟨rfl, lineEnd⟩ := broken
        cases rest with
        | nil =>
          obtain ⟨more, rfl⟩ := List.head?_eq_some_iff.1 lineEnd
          exact absurd short (Nat.not_lt_of_le (Nat.le_add_left 2 _))
        | cons e rest =>
          cases Option.some.inj lineEnd
          have later := ih rest.length (by simp only [List.length_cons]; omega)
            (Nat.lt_of_add_lt_add_right (n := 3) short) rfl
          exact congrArg (fun reach : Nat × Bool => (reach.1 + 3, reach.2)) later
      · have before := stringReach_escape (d := d) quote (r := rest ++ x) fun isReturn lineEnd =>
          broken ⟨isReturn, lineEnd⟩
        rw [List.cons_append] at short ⊢
        rw [List.cons_append, List.cons_append, before]
        rw [before] at short
        have later := ih rest.length (by simp only [List.length_cons]; omega)
          (Nat.lt_of_add_lt_add_right (n := 2) short) rfl
        have unbroken : d = '\r' → (rest ++ y).head? ≠ some '\n' := by
          cases rest with
          | nil => exact absurd short (Nat.not_lt_of_le (Nat.le_add_left 2 _))
          | cons e rest => exact fun isReturn lineEnd => broken ⟨isReturn, lineEnd⟩
        rw [stringReach_escape quote unbroken, later]

theorem takeWhile_append {p : Char → Bool}
    (short : ((w ++ x).takeWhile p).length < w.length) :
    (w ++ y).takeWhile p = (w ++ x).takeWhile p := by
  rw [List.takeWhile_append] at short ⊢
  rw [List.takeWhile_append]
  split
  · rename_i whole
    rw [if_pos whole, List.length_append] at short
    omega
  · rfl

theorem digits_append (short : (digits isDigit (w ++ x)).length < w.length) :
    digits isDigit (w ++ y) = digits isDigit (w ++ x) := takeWhile_append short

theorem digitRun_append (short : (digitRun isDigit before (w ++ x)).1 < w.length) :
    digitRun isDigit before (w ++ y) = digitRun isDigit before (w ++ x) := by
  unfold digitRun at short ⊢
  dsimp only at short ⊢
  have inside : before ≤ w.length := by omega
  rw [List.drop_append_of_le_length inside] at short ⊢
  rw [List.drop_append_of_le_length inside, digits_append (x := x)]
  rw [List.length_drop]
  omega

private theorem getElem?_same {n : Nat} (inside : n < w.length) :
    (w ++ y)[n]? = (w ++ x)[n]? := by
  rw [List.getElem?_append_left inside, List.getElem?_append_left inside]

private theorem le_digitRun (text : List Char) : before ≤ (digitRun isDigit before text).1 :=
  Nat.le_add_right _ _

private theorem le_fractionRun (whole : Nat) (isOctal : Bool) (text : List Char) :
    whole ≤ (fractionRun whole isOctal text).1 := by
  unfold fractionRun
  split
  · exact Nat.le_trans (Nat.le_succ whole) (le_digitRun text)
  · exact Nat.le_refl _

private theorem le_exponentRun (text : List Char) : before ≤ (exponentRun before text).1 := by
  unfold exponentRun
  split
  · exact Nat.le_refl _
  · exact Nat.le_trans (Nat.le_add_right ..) (le_digitRun text)

private theorem fractionRun_append {whole : Nat} {isOctal : Bool}
    (short : (fractionRun whole isOctal (w ++ x)).1 < w.length) :
    fractionRun whole isOctal (w ++ y) = fractionRun whole isOctal (w ++ x) := by
  have inside := Nat.lt_of_le_of_lt (le_fractionRun whole isOctal (w ++ x)) short
  unfold fractionRun at short ⊢
  rw [getElem?_same (x := x) inside]
  split
  · rename_i point
    rw [if_pos point] at short
    exact digitRun_append short
  · rfl

private theorem isEmpty_digits (c : Char) (cs : List Char) :
    (digits isDigit (c :: cs)).isEmpty = !(isDigit c || c == '_') := by
  rw [digits, List.takeWhile_cons]
  cases isDigit c || c == '_' <;> rfl

private theorem exponentMark?_cons (e s : Char) (cs : List Char) :
    exponentMark? (e :: s :: cs) =
      if e != 'e' && e != 'E' then none
      else if s.isDigit || s == '_' then some 1
      else if (s == '+' || s == '-') && !(digits Char.isDigit cs).isEmpty then some 2
      else none := by
  rw [exponentMark?, isEmpty_digits, Bool.not_not]

private theorem exponentMark?_pos {text : List Char} {n : Nat} (mark : exponentMark? text = some n) :
    0 < n := by
  unfold exponentMark? at mark
  repeat' split at mark
  all_goals first | (cases mark; decide) | cases mark

private theorem mark_of_letter {e : Char} (plain : isNameStart e = false) :
    (e != 'e' && e != 'E') = true := by
  have small : e ≠ 'e' := fun same => absurd (same ▸ plain) (by decide)
  have capital : e ≠ 'E' := fun same => absurd (same ▸ plain) (by decide)
  simp [small, capital]

private theorem exponentMark?_of_plain {e : Char} (plain : isNameStart e = false) (rest : List Char) :
    exponentMark? (e :: rest) = none := by
  cases rest with
  | nil => rfl
  | cons s cs => rw [exponentMark?_cons, if_pos (mark_of_letter plain)]

private theorem exponentRun_append
    (short : (exponentRun before (w ++ x)).1 < w.length)
    (plain : ∀ c ∈ w[(exponentRun before (w ++ x)).1]?, isNameStart c = false) :
    exponentRun before (w ++ y) = exponentRun before (w ++ x) := by
  have inside := Nat.lt_of_le_of_lt (le_exponentRun (w ++ x)) short
  obtain ⟨e, rest, parts⟩ := List.exists_cons_of_length_pos
    (l := w.drop before) (by rw [List.length_drop]; omega)
  have drop (more : List Char) : (w ++ more).drop before = e :: (rest ++ more) := by
    rw [List.drop_append_of_le_length (Nat.le_of_lt inside), parts, List.cons_append]
  have size : w.length = before + rest.length + 1 := by
    have same := congrArg List.length parts
    rw [List.length_drop, List.length_cons] at same
    omega
  have here : w[before]? = some e := by
    rw [← List.head?_drop, parts, List.head?_cons]
  unfold exponentRun at short plain ⊢
  rw [drop] at short plain ⊢
  rw [drop]
  -- Where there is no exponent, there is none in the other text.
  cases mark : exponentMark? (e :: (rest ++ x)) with
  | none =>
    rw [mark] at plain
    rw [exponentMark?_of_plain (plain e here)]
  | some n =>
    rw [mark] at short
    have within := Nat.lt_of_le_of_lt (le_digitRun (w ++ x)) short
    have same : exponentMark? (e :: (rest ++ y)) = some n := by
      have filled : before + n ≤ (digitRun Char.isDigit (before + n) (w ++ x)).1 := le_digitRun _
      cases rest with
      | nil => exact absurd (exponentMark?_pos mark) (by simp only [List.length_nil] at size; omega)
      | cons s cs =>
        rw [List.cons_append, exponentMark?_cons] at mark ⊢
        cases cs with
        | cons d cs =>
          rw [List.cons_append, isEmpty_digits] at mark ⊢
          exact mark
        | nil =>
          -- Only a digit can be next: behind a sign, the digits would stand in the other text.
          simp only [List.length_cons, List.length_nil] at size
          split at mark
          · cases mark
          rename_i letter
          split at mark
          · rename_i digit
            rw [if_neg letter, if_pos digit]
            exact mark
          split at mark
          · cases mark
            omega
          · cases mark
    rw [same]
    exact digitRun_append short

private theorem decimalReach_append {strict : Bool}
    (short : (decimalReach strict (w ++ x)).1 < w.length)
    (plain : ∀ c ∈ w[(decimalReach strict (w ++ x)).1]?, isNameStart c = false) :
    decimalReach strict (w ++ y) = decimalReach strict (w ++ x) := by
  have head : (w ++ y).head? = (w ++ x).head? := by
    cases w with
    | nil => exact absurd short (Nat.not_lt_zero _)
    | cons => rfl
  unfold decimalReach at short plain ⊢
  dsimp only at short plain ⊢
  rw [head]
  have inside : (digitRun Char.isDigit 0 (w ++ x)).1 < w.length := by
    split at short
    · exact Nat.lt_of_succ_lt short
    · exact Nat.lt_of_le_of_lt (Nat.le_trans (le_fractionRun ..) (le_exponentRun _)) short
  rw [digitRun_append inside, getElem?_same (x := x) inside]
  split
  · rfl
  · rename_i notBig
    rw [if_neg notBig] at short plain
    have fraction := fractionRun_append (y := y)
      (Nat.lt_of_le_of_lt (le_exponentRun _) short)
    rw [fraction, exponentRun_append short plain]

private theorem markedDigit?_append (long : 2 ≤ w.length) :
    markedDigit? (w ++ y) = markedDigit? (w ++ x) := by
  match w with
  | [] | [_] => simp at long
  | c :: d :: rest =>
    simp only [List.cons_append]
    unfold markedDigit?
    split <;> simp_all

private theorem numberUpTo_append {offset : Nat} {reach : Nat × Option Nat}
    (isNumber : (numberUpTo offset (w ++ x) reach).kind = .number)
    (short : (numberUpTo offset (w ++ x) reach).length < w.length) :
    reach.1 < w.length ∧ (∀ c ∈ w[reach.1]?, isNameStart c = false) ∧
      numberUpTo offset (w ++ y) reach = numberUpTo offset (w ++ x) reach := by
  have same : (numberUpTo offset (w ++ x) reach).length = reach.1 := by
    unfold numberUpTo
    repeat' split
    all_goals rfl
  rw [same] at short
  unfold numberUpTo at isNumber ⊢
  rw [List.getElem?_append_left short] at isNumber ⊢
  rw [List.getElem?_append_left short]
  refine ⟨short, fun c here => ?_, ?_⟩
  · rw [Option.mem_def.1 here] at isNumber
    dsimp only at isNumber
    split at isNumber
    · cases isNumber
    · rename_i plain
      exact Bool.eq_false_iff.2 plain
  · rw [List.getElem?_eq_getElem short] at isNumber ⊢
    dsimp only at isNumber ⊢
    split at isNumber
    · cases isNumber
    · rename_i plain
      rw [if_neg plain, if_neg plain]

private theorem numberPiece_append {strict : Bool} {offset : Nat} (long : 2 ≤ w.length)
    (isNumber : (numberPiece strict offset (w ++ x)).kind = .number)
    (short : (numberPiece strict offset (w ++ x)).length < w.length) :
    numberPiece strict offset (w ++ y) = numberPiece strict offset (w ++ x) := by
  unfold numberPiece at isNumber short ⊢
  rw [markedDigit?_append (x := x) long]
  cases marked : markedDigit? (w ++ x) with
  | none =>
    rw [marked] at isNumber short
    obtain ⟨inside, plain, same⟩ := numberUpTo_append (y := y) isNumber short
    dsimp only
    rw [decimalReach_append inside plain, same]
  | some isDigit =>
    rw [marked] at isNumber short
    dsimp only at isNumber short ⊢
    split at isNumber
    · rename_i filled
      rw [if_pos filled] at short
      obtain ⟨inside, _, same⟩ := numberUpTo_append (y := y) isNumber short
      dsimp only at inside
      have within : (digitRun isDigit 2 (w ++ x)).1 < w.length := by
        split at inside
        · exact Nat.lt_of_succ_lt inside
        · exact inside
      have run := digitRun_append (y := y) within
      have after : (digits isDigit ((w ++ y).drop 2)) =
          digits isDigit ((w ++ x).drop 2) := by
        rw [List.drop_append_of_le_length long, List.drop_append_of_le_length long]
        rw [digitRun, List.drop_append_of_le_length long] at within
        dsimp only at within
        exact digits_append (by rw [List.length_drop]; omega)
      rw [if_pos filled, after, if_pos filled, run, getElem?_same (x := x) within]
      exact same
    · cases isNumber

private theorem stringPiece_append {strict : Bool} {offset : Nat} {quote : Char}
    (short : (stringPiece strict offset quote (w ++ x)).length ≤ w.length) :
    stringPiece strict offset quote (w ++ y) =
      stringPiece strict offset quote (w ++ x) := by
  have length : (stringPiece strict offset quote (w ++ x)).length =
      (stringReach quote (w ++ x)).1 + 1 := by
    unfold stringPiece
    dsimp only
    split <;> rfl
  rw [length] at short
  unfold stringPiece
  rw [stringReach_append quote short]
  have inside (closed : Bool) : (if closed then (stringReach quote (w ++ x)).1 - 1
      else (stringReach quote (w ++ x)).1) ≤ w.length := by
    split <;> omega
  dsimp only
  rw [List.take_append_of_le_length (inside _), List.take_append_of_le_length (inside _)]

private theorem wordPiece_append {strict : Bool} {offset : Nat} {name : String} {escaped : Bool}
    (isWord : (wordPiece strict offset (w ++ x)).kind = .word name escaped)
    (short : (wordPiece strict offset (w ++ x)).length < w.length) :
    wordPiece strict offset (w ++ y) = wordPiece strict offset (w ++ x) := by
  unfold wordPiece at isWord short ⊢
  cases found : name? (w ++ x) with
  | none =>
    rw [found] at isWord
    cases isWord
  | some result =>
    obtain ⟨chars, length⟩ := result
    rw [found] at short
    have within : length < w.length := by
      dsimp only at short
      split at short <;> exact short
    have head : (w ++ y).head? = (w ++ x).head? := by
      cases w with
      | nil => exact absurd within (Nat.not_lt_zero _)
      | cons => rfl
    rw [name?_append found within, head]
    dsimp only
    rw [List.take_append_of_le_length (Nat.le_of_lt within),
      List.take_append_of_le_length (Nat.le_of_lt within)]

/-- The punctuation with this text behind it is what it is whatever comes behind this text. -/
def isFinal (p : String) (rest : List Char) : Bool :=
  closedPunctuation.contains p || rest.head?.any fun c =>
    !(((p == "." || p == "?") && c == '.') || (p == "<" && c == '!'))

private theorem eq_of_closed : ∀ p ∈ closedPunctuation, ∀ q ∈ punctuation,
    p.toList <+: q.toList → q = p := by
  decide +kernel

private theorem take_mem_punctuation : ∀ q ∈ punctuation, ∀ n < q.toList.length, n ≠ 0 →
    q.toList.take n = ['.', '.'] ∨ ∃ p ∈ punctuation, p.toList = q.toList.take n := by
  decide +kernel

private theorem punctuation_sorted :
    punctuation.Pairwise fun p q => q.toList.length ≤ p.toList.length := by
  decide +kernel

private theorem toList_ne_nil : ∀ p ∈ punctuation, p.toList ≠ [] := by
  decide +kernel

/-- What is found in a list sorted by length is no shorter than anything in it that fits. -/
private theorem find?_append {p : String}
    (found : punctuation.find? (·.toList.isPrefixOf (w ++ x)) = some p)
    (fits : p.toList.length ≤ w.length)
    (final : isFinal p (w.drop p.toList.length) = true) :
    punctuation.find? (·.toList.isPrefixOf (w ++ y)) = some p := by
  obtain ⟨isPrefix, before, after, parts, longer⟩ := List.find?_eq_some_iff_append.1 found
  have sorted := punctuation_sorted
  rw [parts] at sorted
  have known : p ∈ punctuation := List.mem_of_find?_eq_some found
  have here : p.toList <+: w :=
    List.prefix_of_prefix_length_le (List.isPrefixOf_iff_prefix.1 isPrefix)
      (List.prefix_append ..) fits
  refine List.find?_eq_some_iff_append.2 ⟨List.isPrefixOf_iff_prefix.2
    (here.trans (List.prefix_append ..)), before, after, parts, fun q earlier => ?_⟩
  have absent := longer q earlier
  rw [Bool.not_eq_true', Bool.eq_false_iff, ne_eq, List.isPrefixOf_iff_prefix] at absent ⊢
  have listed : q ∈ punctuation := parts ▸ List.mem_append_left _ earlier
  intro opens
  by_cases short : q.toList.length ≤ w.length
  · exact absent ((List.prefix_of_prefix_length_le opens (List.prefix_append ..) short).trans
      (List.prefix_append ..))
  -- All of `w` belongs to the longer punctuation.
  have whole : w <+: q.toList :=
    List.prefix_of_prefix_length_le (List.prefix_append ..) opens (by omega)
  rcases Bool.or_eq_true_iff.1 final with closed | goesOn
  · have same := eq_of_closed p (List.contains_iff_mem.1 closed) q listed (here.trans whole)
    exact absent (same ▸ here.trans (List.prefix_append ..))
  · obtain ⟨c, next, apart⟩ := (Option.any_eq_true ..).1 goesOn
    obtain ⟨rest, behind⟩ := List.head?_eq_some_iff.1 next
    obtain ⟨others, rfl⟩ := here
    rw [List.drop_left] at behind
    subst behind
    have taken := List.prefix_iff_eq_take.1 whole
    rcases take_mem_punctuation q listed (p.toList ++ c :: rest).length (by omega) (by simp) with
      dots | ⟨s, member, spelled⟩
    · rw [← taken] at dots
      obtain ⟨a, as, spelled⟩ := List.exists_cons_of_ne_nil (toList_ne_nil p known)
      rw [spelled, List.cons_append, List.cons.injEq] at dots
      obtain ⟨rfl, dots⟩ := dots
      cases as with
      | cons => simp at dots
      | nil =>
        obtain ⟨rfl, -⟩ := List.cons.inj dots
        have isDot : p = "." := String.toList_inj.1 spelled
        rw [isDot] at apart
        exact absurd apart (by decide)
    · rw [← taken] at spelled
      have later : s ∈ p :: after := by
        refine (List.mem_append.1 (parts ▸ member)).resolve_left fun earlier => ?_
        have longer := longer s earlier
        rw [Bool.not_eq_true', Bool.eq_false_iff, ne_eq, List.isPrefixOf_iff_prefix, spelled]
          at longer
        exact longer (List.prefix_append ..)
      have size := congrArg List.length spelled
      simp only [List.length_append, List.length_cons] at size
      rcases List.mem_cons.1 later with rfl | later
      · omega
      · have shorter := (List.pairwise_cons.1 (List.pairwise_append.1 sorted).2.1).1 s later
        omega

theorem punct?_eq_find? {text : List Char} (unmarked : ∀ rest, text ≠ '?' :: '.' :: rest) :
    punct? text = punctuation.find? (·.toList.isPrefixOf text) := by
  unfold punct?
  split
  · exact absurd rfl (unmarked _)
  · rfl

private theorem punct?_marked {text : List Char} {p : String}
    (found : punct? ('?' :: '.' :: text) = some p) : p = "?" ∨ p = "?." := by
  cases text with
  | nil => exact .inr (Option.some.inj (found.symm.trans (by decide +kernel)))
  | cons d rest =>
    rw [punct?] at found
    split at found
    · exact .inl (Option.some.inj found).symm
    · exact .inr (Option.some.inj found).symm

theorem mem_of_punct? {text : List Char} {p : String} (found : punct? text = some p) :
    p ∈ punctuation ∧ p.toList <+: text := by
  by_cases marked : ∃ rest, text = '?' :: '.' :: rest
  · obtain ⟨rest, rfl⟩ := marked
    rcases punct?_marked found with rfl | rfl
    · exact ⟨by decide +kernel, '.' :: rest, rfl⟩
    · exact ⟨by decide +kernel, rest, rfl⟩
  · rw [punct?_eq_find? fun rest same => marked ⟨rest, same⟩] at found
    exact ⟨List.mem_of_find?_eq_some found,
      List.isPrefixOf_iff_prefix.1 (List.find?_some (p := fun q : String => q.toList.isPrefixOf text) found)⟩

private theorem punct?_append {p : String} (found : punct? (w ++ x) = some p)
    (fits : p.toList.length ≤ w.length)
    (final : isFinal p (w.drop p.toList.length) = true) :
    punct? (w ++ y) = some p := by
  have filled := toList_ne_nil p (mem_of_punct? found).1
  -- A question mark is not settled by itself, and neither is one with a point.
  have unmarked (isMark : p = "?" ∨ p = "?.") : w ≠ ['?'] ∧ w ≠ ['?', '.'] := by
    rcases isMark with rfl | rfl <;> constructor <;> rintro rfl <;> revert fits final <;> decide
  by_cases marked : ∃ rest, w = '?' :: '.' :: rest
  · obtain ⟨rest, rfl⟩ := marked
    cases rest with
    | nil => exact absurd rfl (unmarked (punct?_marked found)).2
    | cons d rest => exact found
  by_cases alone : w = ['?']
  · subst alone
    have spelled : p.toList = ['?'] := by
      obtain ⟨more, whole⟩ := (mem_of_punct? found).2
      obtain ⟨a, as, parts⟩ := List.exists_cons_of_ne_nil filled
      rw [parts] at fits whole ⊢
      obtain ⟨rfl, -⟩ := List.cons.inj whole
      rw [List.length_eq_zero_iff.1 (Nat.le_zero.1 (Nat.le_of_succ_le_succ fits))]
    exact absurd rfl (unmarked (.inl (String.toList_inj.1 spelled))).1
  have plain (more rest : List Char) : w ++ more ≠ '?' :: '.' :: rest := by
    intro whole
    match w with
    | [] => exact filled (List.length_eq_zero_iff.1 (Nat.le_zero.1 fits))
    | [c] => exact alone (by rw [(List.cons.inj whole).1])
    | c :: d :: others =>
      obtain ⟨isMark, later⟩ := List.cons.inj whole
      have isDot := (List.cons.inj later).1
      exact marked ⟨others, by rw [isMark, isDot]⟩
  rw [punct?_eq_find? (plain _)] at found ⊢
  exact find?_append found fits final

/-- How a piece that `text` begins with has been recognised by the first characters of it that are in
`w`. -/
def Piece.EndsIn (p : Piece) (w : List Char) : Prop :=
  match p.kind with
  | .invalid _ | .endOfText => False
  | .punct mark => p.length ≤ w.length ∧ isFinal mark (w.drop p.length) = true
  | .word _ _ | .privateName _ | .number | .string _ => p.length < w.length

private theorem length_numberUpTo (offset : Nat) (text : List Char) (reach : Nat × Option Nat) :
    (numberUpTo offset text reach).length = reach.1 := by
  unfold numberUpTo
  repeat' split
  all_goals rfl

private theorem decimalReach_pos (strict : Bool) {c : Char} (begins : c.isDigit = true ∨ c = '.')
    (text : List Char) : 0 < (decimalReach strict (c :: text)).1 := by
  unfold decimalReach
  dsimp only
  rcases begins with digit | rfl
  · have whole : 0 < (digitRun Char.isDigit 0 (c :: text)).1 := by
      rw [digitRun, digits, List.drop_zero, List.takeWhile_cons, digit]
      simp
    split
    · exact Nat.succ_pos _
    · exact Nat.lt_of_lt_of_le whole (Nat.le_trans (le_fractionRun ..) (le_exponentRun _))
  · have whole : (digitRun Char.isDigit 0 ('.' :: text)).1 = 0 := rfl
    rw [whole]
    split
    · exact Nat.succ_pos _
    · refine Nat.lt_of_lt_of_le ?_ (le_exponentRun _)
      exact Nat.le_add_right 1 _

private theorem numberPiece_pos (strict : Bool) (offset : Nat) {c : Char}
    (begins : c.isDigit = true ∨ c = '.') (text : List Char) :
    0 < (numberPiece strict offset (c :: text)).length := by
  unfold numberPiece
  split
  · rw [length_numberUpTo]
    exact decimalReach_pos strict begins text
  · rename_i isDigit _
    have two : 2 ≤ (digitRun isDigit 2 (c :: text)).1 := le_digitRun _
    dsimp only
    split
    · rw [length_numberUpTo]
      dsimp only
      split <;> omega
    · dsimp only
      omega

theorem wordPiece_kind (strict : Bool) (offset : Nat) (text : List Char) :
    (∃ name escaped, (wordPiece strict offset text).kind = .word name escaped) ∨
      ∃ fault, (wordPiece strict offset text).kind = .invalid fault := by
  unfold wordPiece
  split
  · dsimp only
    split
    · exact .inr ⟨_, rfl⟩
    · exact .inl ⟨_, _, rfl⟩
  · exact .inr ⟨_, rfl⟩

private theorem numberUpTo_kind (offset : Nat) (text : List Char) (reach : Nat × Option Nat) :
    (numberUpTo offset text reach).kind = .number ∨
      ∃ fault, (numberUpTo offset text reach).kind = .invalid fault := by
  unfold numberUpTo
  repeat' split
  · exact .inr ⟨_, rfl⟩
  · exact .inl rfl
  · exact .inl rfl

theorem numberPiece_kind (strict : Bool) (offset : Nat) (text : List Char) :
    (numberPiece strict offset text).kind = .number ∨
      ∃ fault, (numberPiece strict offset text).kind = .invalid fault := by
  unfold numberPiece
  split
  · exact numberUpTo_kind ..
  · dsimp only
    split
    · exact numberUpTo_kind ..
    · exact .inr ⟨_, rfl⟩

theorem stringPiece_kind (strict : Bool) (offset : Nat) (quote : Char) (text : List Char) :
    (∃ value, (stringPiece strict offset quote text).kind = .string value) ∨
      ∃ fault, (stringPiece strict offset quote text).kind = .invalid fault := by
  unfold stringPiece
  dsimp only
  split
  · exact .inl ⟨_, rfl⟩
  · exact .inr ⟨_, rfl⟩

private theorem not_endsIn_invalid {p : Piece} {fault : Nat} (invalid : p.kind = .invalid fault) :
    ¬p.EndsIn w := by
  unfold Piece.EndsIn
  rw [invalid]
  exact id

private theorem piece_cons (strict : Bool) (offset : Nat) (c : Char) (rest : List Char) :
    piece strict offset (c :: rest) =
      if isNameStart c || c == '\\' then wordPiece strict offset (c :: rest)
      else if c.isDigit || (c == '.' && (rest.head?.map Char.isDigit).getD false) then
        numberPiece strict offset (c :: rest)
      else if c == '"' || c == '\'' then stringPiece strict offset c rest
      else if c == '#' then
        match name? rest with
        | some (chars, length) => ⟨.privateName (String.ofList chars), length + 1, none⟩
        | none => ⟨.invalid offset, 1, none⟩
      else
        match punct? (c :: rest) with
        | some p => ⟨.punct p, p.length, none⟩
        | none => ⟨.invalid offset, 1, none⟩ := rfl

theorem punct_of_piece {strict : Bool} {offset : Nat} {text : List Char} {mark : String}
    (isPunct : (piece strict offset text).kind = .punct mark) :
    punct? text = some mark ∧ (piece strict offset text).length = mark.length := by
  cases text with
  | nil => cases isPunct
  | cons c rest =>
    rw [piece_cons] at isPunct ⊢
    split at isPunct
    · rcases wordPiece_kind strict offset (c :: rest) with ⟨_, _, isWord⟩ | ⟨_, invalid⟩
      · cases isPunct.symm.trans isWord
      · cases isPunct.symm.trans invalid
    split at isPunct
    · rcases numberPiece_kind strict offset (c :: rest) with isNumber | ⟨_, invalid⟩
      · cases isPunct.symm.trans isNumber
      · cases isPunct.symm.trans invalid
    split at isPunct
    · rcases stringPiece_kind strict offset c rest with ⟨_, isString⟩ | ⟨_, invalid⟩
      · cases isPunct.symm.trans isString
      · cases isPunct.symm.trans invalid
    split at isPunct
    · split at isPunct <;> cases isPunct
    · rename_i notWord notNumber notString notPrivate
      rw [if_neg notWord, if_neg notNumber, if_neg notString, if_neg notPrivate]
      split at isPunct
      · rename_i p found
        cases isPunct
        exact ⟨found, rfl⟩
      · cases isPunct

theorem Piece.EndsIn.length_le {p : Piece} (ends : p.EndsIn w) :
    p.length ≤ w.length := by
  unfold Piece.EndsIn at ends
  split at ends
  · exact ends.elim
  · exact ends.elim
  · exact ends.1
  all_goals exact Nat.le_of_lt ends

theorem Piece.EndsIn.ne_nil {strict : Bool} {offset : Nat} {text : List Char}
    (ends : (piece strict offset text).EndsIn w) : w ≠ [] := by
  rintro rfl
  unfold Piece.EndsIn at ends
  split at ends
  · exact ends
  · exact ends
  · rename_i mark isPunct
    obtain ⟨found, length⟩ := punct_of_piece isPunct
    rw [length] at ends
    have filled := toList_ne_nil mark (mem_of_punct? found).1
    exact filled (List.length_eq_zero_iff.1 (Nat.le_zero.1 (String.length_toList ▸ ends.1)))
  all_goals exact Nat.not_lt_zero _ ends

theorem piece_append {strict : Bool} {offset : Nat}
    (ends : (piece strict offset (w ++ x)).EndsIn w) :
    piece strict offset (w ++ y) = piece strict offset (w ++ x) := by
  cases w with
  | nil => exact absurd rfl ends.ne_nil
  | cons c rest =>
    rw [List.cons_append, piece_cons] at ends ⊢
    rw [List.cons_append, piece_cons]
    split
    · rename_i word
      rw [if_pos word] at ends
      rcases wordPiece_kind strict offset (c :: (rest ++ x)) with ⟨_, _, isWord⟩ | ⟨_, invalid⟩
      · refine wordPiece_append (w := c :: rest) isWord ?_
        unfold Piece.EndsIn at ends
        rw [isWord] at ends
        exact ends
      · exact absurd ends (not_endsIn_invalid invalid)
    rename_i notWord
    rw [if_neg notWord] at ends
    -- A point by itself is not settled, whether digits come behind it or not.
    have beginsSame : c = '.' → rest ≠ [] := by
      rintro rfl rfl
      split at ends
      · rename_i begins
        rcases numberPiece_kind strict offset ('.' :: ([] ++ x)) with isNumber | ⟨_, invalid⟩
        · have filled := numberPiece_pos strict offset (.inr rfl) ([] ++ x)
          unfold Piece.EndsIn at ends
          rw [isNumber] at ends
          exact Nat.not_lt_of_le filled ends
        · exact absurd ends (not_endsIn_invalid invalid)
      · change Piece.EndsIn (match punct? ('.' :: ([] ++ x)) with
          | some p => ⟨.punct p, p.length, none⟩
          | none => ⟨.invalid offset, 1, none⟩) ['.'] at ends
        cases found : punct? ('.' :: ([] ++ x)) with
        | none =>
          rw [found] at ends
          exact absurd ends (not_endsIn_invalid rfl)
        | some mark =>
          rw [found] at ends
          obtain ⟨member, here⟩ := mem_of_punct? found
          obtain ⟨d, others, spelled⟩ := List.exists_cons_of_ne_nil (toList_ne_nil mark member)
          have final : isFinal mark (['.'].drop mark.length) = true := ends.2
          rw [← String.length_toList, spelled] at final
          rw [spelled] at here
          cases (List.cons_prefix_cons.1 here).1
          have closed : closedPunctuation.contains mark = true := by
            simpa [isFinal] using final
          have notDot : ∀ p ∈ closedPunctuation, p.toList.head? ≠ some '.' := by decide +kernel
          exact notDot mark (List.contains_iff_mem.1 closed) (by rw [spelled]; rfl)
    have headSame : c = '.' → (rest ++ y).head? = (rest ++ x).head? := by
      intro isDot
      cases rest with
      | nil => exact absurd rfl (beginsSame isDot)
      | cons => rfl
    have begins : (c.isDigit || (c == '.' && ((rest ++ y).head?.map Char.isDigit).getD false)) =
        (c.isDigit || (c == '.' && ((rest ++ x).head?.map Char.isDigit).getD false)) := by
      by_cases isDot : c = '.'
      · rw [headSame isDot]
      · rw [beq_eq_false_iff_ne.2 isDot, Bool.false_and, Bool.false_and]
    rw [begins]
    split
    · rename_i number
      rw [if_pos number] at ends
      rcases numberPiece_kind strict offset (c :: (rest ++ x)) with isNumber | ⟨_, invalid⟩
      · have opens : c.isDigit = true ∨ c = '.' := by
          simp only [Bool.or_eq_true, Bool.and_eq_true, beq_iff_eq] at number
          exact number.imp id And.left
        have filled := numberPiece_pos strict offset opens (rest ++ x)
        unfold Piece.EndsIn at ends
        rw [isNumber] at ends
        exact numberPiece_append (w := c :: rest) (Nat.lt_of_le_of_lt filled ends) isNumber ends
      · exact absurd ends (not_endsIn_invalid invalid)
    rename_i notNumber
    rw [if_neg notNumber] at ends
    split
    · rename_i isQuote
      rw [if_pos isQuote] at ends
      rcases stringPiece_kind strict offset c (rest ++ x) with ⟨_, isString⟩ | ⟨_, invalid⟩
      · unfold Piece.EndsIn at ends
        rw [isString] at ends
        exact stringPiece_append (Nat.le_of_lt_succ ends)
      · exact absurd ends (not_endsIn_invalid invalid)
    rename_i notQuote
    rw [if_neg notQuote] at ends
    split
    · rename_i isHash
      rw [if_pos isHash] at ends
      cases found : name? (rest ++ x) with
      | none =>
        rw [found] at ends
        exact absurd ends (not_endsIn_invalid rfl)
      | some result =>
        obtain ⟨chars, length⟩ := result
        rw [found] at ends
        rw [name?_append found (Nat.lt_of_succ_lt_succ ends)]
    · rename_i notHash
      rw [if_neg notHash] at ends
      cases found : punct? (c :: (rest ++ x)) with
      | none =>
        rw [found] at ends
        exact absurd ends (not_endsIn_invalid rfl)
      | some mark =>
        rw [found] at ends
        have same := punct?_append (w := c :: rest) (y := y) found
          (String.length_toList ▸ ends.1) (String.length_toList ▸ ends.2)
        rw [List.cons_append] at same
        rw [same]

/-- No comment begins where this text does, whatever comes behind it. -/
structure Uncommented (c : Char) (cs : List Char) : Prop where
  slash : c = '/' → cs ≠ []
  angle : c = '<' → cs ≠ [] ∧ cs.head? ≠ some '!'
  minus : c = '-' → cs ≠ [] ∧ cs ≠ ['-']

theorem length_passGap (strict : Bool) (gap : Gap) (offset : Nat) (afterBreak : Bool)
    (faults : List Nat) (text : List Char) :
    (passGap strict gap offset afterBreak faults text).text.length ≤ text.length := by
  fun_induction passGap strict gap offset afterBreak faults text
  all_goals first
    | exact Nat.le_refl _
    | (rename_i ih; exact Nat.le_succ_of_le ih)

private theorem not_reached {strict : Bool} {gap : Gap} {offset : Nat} {afterBreak : Bool}
    {faults : List Nat} {c : Char} {cs : List Char}
    (reached : (passGap strict gap offset afterBreak faults x).text = c :: cs ++ x) : False := by
  have short := length_passGap strict gap offset afterBreak faults x
  rw [reached] at short
  simp only [List.cons_append, List.length_cons, List.length_append] at short
  omega

private theorem line_not_reached {strict : Bool} {offset : Nat} {afterBreak : Bool}
    {faults : List Nat} {c : Char} {cs before : List Char}
    (unbroken : ∀ d ∈ before, isLineBreak d = false)
    (reached : (passGap strict .line offset afterBreak faults (before ++ x)).text =
      c :: cs ++ x) : False := by
  induction before generalizing offset with
  | nil => exact not_reached reached
  | cons d ds ih =>
    obtain ⟨here, later⟩ := List.forall_mem_cons.1 unbroken
    rw [List.cons_append, passGap.eq_def] at reached
    dsimp only at reached
    rw [if_neg (by simp [here])] at reached
    exact ih later reached

/-- What a text begins with, it begins with whatever comes behind enough of it. -/
private theorem isPrefixOf_append_of_le {p before : List Char} (long : p.length ≤ before.length) :
    p.isPrefixOf (before ++ y) = p.isPrefixOf (before ++ x) := by
  have same (more : List Char) : p.isPrefixOf (before ++ more) = true ↔ p <+: before :=
    ⟨fun opens => List.prefix_of_prefix_length_le (List.isPrefixOf_iff_prefix.1 opens)
      (List.prefix_append ..) long,
      fun here => List.isPrefixOf_iff_prefix.2 (here.trans (List.prefix_append ..))⟩
  exact Bool.eq_iff_iff.2 ((same y).trans (same x).symm)

/-- A text that is shorter than what it begins with is a part of that. -/
private theorem unbroken_of_isPrefixOf {p before : List Char} (opens : p.isPrefixOf (before ++ x) = true)
    (short : before.length ≤ p.length) (plain : ∀ d ∈ p, isLineBreak d = false) :
    ∀ d ∈ before, isLineBreak d = false := by
  have inside : before <+: p := List.prefix_of_prefix_length_le (List.prefix_append ..)
    (List.isPrefixOf_iff_prefix.1 opens) short
  exact fun d member => plain d (inside.subset member)

/-- A gap ends at the same token whatever comes behind the text that the token begins in. -/
theorem passGap_shared (strict : Bool) (gap : Gap) (offset : Nat) (afterBreak : Bool)
    (faults : List Nat) {c : Char} {cs : List Char} (clear : Uncommented c cs)
    (reached : (passGap strict gap offset afterBreak faults (w ++ x)).text = c :: cs ++ x) :
    passGap strict gap offset afterBreak faults (w ++ y) =
      { passGap strict gap offset afterBreak faults (w ++ x) with text := c :: cs ++ y } := by
  induction w generalizing gap offset afterBreak faults with
  | nil => exact (not_reached reached).elim
  | cons d ds ih =>
    rw [List.cons_append] at reached ⊢
    rw [List.cons_append]
    rw [passGap.eq_def] at reached ⊢
    rw [passGap.eq_def strict gap offset afterBreak faults (d :: (ds ++ x))]
    cases gap with
    | line =>
      dsimp only at reached ⊢
      split
      · rename_i isBreak
        rw [if_pos isBreak] at reached
        exact ih _ _ _ _ reached
      · rename_i noBreak
        rw [if_neg noBreak] at reached
        exact ih _ _ _ _ reached
    | opening opened => exact ih _ _ _ _ reached
    | block opened star =>
      dsimp only at reached ⊢
      split
      · rename_i ends
        rw [if_pos ends] at reached
        exact ih _ _ _ _ reached
      · rename_i goesOn
        rw [if_neg goesOn] at reached
        exact ih _ _ _ _ reached
    | blank =>
      dsimp only at reached ⊢
      split
      · rename_i isBreak
        rw [if_pos isBreak] at reached
        exact ih _ _ _ _ reached
      rename_i noBreak
      rw [if_neg noBreak] at reached
      split
      · rename_i isBlank
        rw [if_pos isBlank] at reached
        exact ih _ _ _ _ reached
      rename_i notBlank
      rw [if_neg notBlank] at reached
      -- If no comment begins here, the token does.
      have stops (same : d :: (ds ++ x) = c :: cs ++ x) : d = c ∧ ds = cs := by
        rw [List.cons_append] at same
        exact ⟨(List.cons.inj same).1, List.append_cancel_right (List.cons.inj same).2⟩
      have slash : d = '/' → (ds ++ y).head? = (ds ++ x).head? := by
        rintro rfl
        cases ds with
        | cons => rfl
        | nil =>
          exfalso
          repeat' split at reached
          all_goals first
            | exact not_reached reached
            | exact clear.slash (stops reached).1.symm (stops reached).2.symm
      have angle : d = '<' → ['!', '-', '-'].isPrefixOf (ds ++ y) =
          ['!', '-', '-'].isPrefixOf (ds ++ x) := by
        rintro rfl
        rw [if_neg (by simp), if_neg (by simp)] at reached
        by_cases long : 3 ≤ ds.length
        · exact isPrefixOf_append_of_le long
        by_cases opens : ['!', '-', '-'].isPrefixOf (ds ++ x) = true
        · rw [if_pos (by simp [opens])] at reached
          exact (line_not_reached (unbroken_of_isPrefixOf opens (by simp; omega)
            (by simp [isLineBreak])) reached).elim
        · rw [if_neg (by simp [opens])] at reached
          obtain ⟨rfl, rfl⟩ := stops reached
          obtain ⟨filled, notMark⟩ := clear.angle rfl
          obtain ⟨e, es, rfl⟩ := List.exists_cons_of_ne_nil filled
          have apart : ('!' == e) = false := beq_false_of_ne fun same => notMark (same ▸ rfl)
          simp [List.isPrefixOf, apart]
      have minus : d = '-' → (afterBreak || offset == 0) = true →
            ['-', '>'].isPrefixOf (ds ++ y) = ['-', '>'].isPrefixOf (ds ++ x) := by
        rintro rfl lineStart
        rw [if_neg (by simp), if_neg (by simp)] at reached
        by_cases long : 2 ≤ ds.length
        · exact isPrefixOf_append_of_le long
        by_cases opens : ['-', '>'].isPrefixOf (ds ++ x) = true
        · rw [if_pos (by simp [opens, lineStart])] at reached
          exact (line_not_reached (unbroken_of_isPrefixOf opens (by simp; omega)
            (by simp [isLineBreak])) reached).elim
        · rw [if_neg (by simp [opens])] at reached
          obtain ⟨rfl, rfl⟩ := stops reached
          obtain ⟨filled, notMark⟩ := clear.minus rfl
          obtain ⟨e, es, rfl⟩ := List.exists_cons_of_ne_nil filled
          cases es with
          | cons => exact absurd (by simp) long
          | nil =>
            have apart : ('-' == e) = false := beq_false_of_ne fun same => notMark (same ▸ rfl)
            simp [List.isPrefixOf, apart]
      have slashSame (mark : Char) : (d == '/' && (ds ++ y).head? == some mark) =
          (d == '/' && (ds ++ x).head? == some mark) := by
        by_cases isSlash : d = '/'
        · rw [slash isSlash]
        · rw [beq_eq_false_iff_ne.2 isSlash, Bool.false_and, Bool.false_and]
      have angleSame : (d == '<' && ['!', '-', '-'].isPrefixOf (ds ++ y)) =
          (d == '<' && ['!', '-', '-'].isPrefixOf (ds ++ x)) := by
        by_cases isAngle : d = '<'
        · rw [angle isAngle]
        · rw [beq_eq_false_iff_ne.2 isAngle, Bool.false_and, Bool.false_and]
      have minusSame : (d == '-' && (afterBreak || offset == 0) && ['-', '>'].isPrefixOf (ds ++ y)) =
          (d == '-' && (afterBreak || offset == 0) && ['-', '>'].isPrefixOf (ds ++ x)) := by
        by_cases atStart : d = '-' ∧ (afterBreak || offset == 0) = true
        · rw [minus atStart.1 atStart.2]
        · have not : (d == '-' && (afterBreak || offset == 0)) = false := by
            rw [Bool.and_eq_false_iff, beq_eq_false_iff_ne, ← Bool.not_eq_true]
            exact Decidable.not_and_iff_or_not.1 atStart
          rw [not, Bool.false_and, Bool.false_and]
      rw [slashSame, slashSame, angleSame, minusSame]
      split
      · rename_i isLine
        rw [if_pos isLine] at reached
        exact ih _ _ _ _ reached
      rename_i notLine
      rw [if_neg notLine] at reached
      split
      · rename_i isBlock
        rw [if_pos isBlock] at reached
        exact ih _ _ _ _ reached
      rename_i notBlock
      rw [if_neg notBlock] at reached
      split
      · rename_i isMarkup
        rw [if_pos isMarkup] at reached
        exact ih _ _ _ _ reached
      rename_i notMarkup
      rw [if_neg notMarkup] at reached
      obtain ⟨rfl, rfl⟩ := stops reached
      rfl

private theorem punct?_dashes (rest : List Char) : punct? ('-' :: '-' :: rest) = some "--" := rfl

/-- A token that has been recognised by what it begins is no comment. -/
private theorem Piece.EndsIn.uncommented {strict : Bool} {offset : Nat} {c : Char} {cs : List Char}
    (ends : (piece strict offset (c :: cs ++ x)).EndsIn (c :: cs)) : Uncommented c cs := by
  -- Only punctuation begins with these characters, and none that is closed.
  have recognised (mark : isNameStart c = false ∧ c ∉ ['\\', '.', '"', '\'', '#'] ∧ c.isDigit = false)
      (opens : ∀ p ∈ closedPunctuation, p.toList.head? ≠ some c) :
      ∃ p d more, punct? (c :: cs ++ x) = some p ∧ p ∈ punctuation ∧ p.toList <+: c :: cs ∧
        (c :: cs).drop p.toList.length = d :: more ∧ isFinal p (d :: more) = true := by
    obtain ⟨notName, notMark, notDigit⟩ := mark
    rw [List.cons_append, piece_cons] at ends
    simp only [List.mem_cons, not_or] at notMark
    rw [notName, notDigit] at ends
    simp only [beq_eq_false_iff_ne.2 notMark.1, beq_eq_false_iff_ne.2 notMark.2.1,
      beq_eq_false_iff_ne.2 notMark.2.2.1, beq_eq_false_iff_ne.2 notMark.2.2.2.1,
      beq_eq_false_iff_ne.2 notMark.2.2.2.2.1, Bool.false_and, Bool.or_self, Bool.false_eq_true,
      if_false] at ends
    cases found : punct? (c :: (cs ++ x)) with
    | none =>
      rw [found] at ends
      exact absurd ends (not_endsIn_invalid rfl)
    | some p =>
      rw [found] at ends
      obtain ⟨fits, final⟩ : p.length ≤ (c :: cs).length ∧
        isFinal p ((c :: cs).drop p.length) = true := ends
      obtain ⟨member, here⟩ := mem_of_punct? found
      rw [← String.length_toList] at fits final
      have inside : p.toList <+: c :: cs := List.prefix_of_prefix_length_le here
        (List.prefix_append (c :: cs) x) fits
      cases behind : (c :: cs).drop p.toList.length with
      | nil =>
        rw [behind] at final
        obtain ⟨a, as, spelled⟩ := List.exists_cons_of_ne_nil (toList_ne_nil p member)
        rw [spelled] at inside
        have closed : closedPunctuation.contains p = true := by
          simpa [isFinal] using final
        refine absurd ?_ (opens p (List.contains_iff_mem.1 closed))
        rw [spelled, (List.cons_prefix_cons.1 inside).1]
        rfl
      | cons d more => exact ⟨p, d, more, found, member, inside, behind, behind ▸ final⟩
  refine ⟨?_, ?_, ?_⟩
  · rintro rfl rfl
    obtain ⟨p, d, more, -, member, -, behind, -⟩ := recognised (by decide) (by decide +kernel)
    have long := congrArg List.length behind
    have filled := List.length_pos_iff.2 (toList_ne_nil p member)
    simp only [List.length_drop, List.length_cons, List.length_nil] at long
    omega
  · rintro rfl
    obtain ⟨p, d, more, -, member, here, behind, final⟩ := recognised (by decide) (by decide +kernel)
    have alone : ∀ p ∈ punctuation, p.toList.head? = some '<' →
        p = "<" ∨ p.toList[1]? ≠ some '!' ∧ 1 < p.toList.length := by
      decide +kernel
    obtain ⟨a, as, spelled⟩ := List.exists_cons_of_ne_nil (toList_ne_nil p member)
    have opens : p.toList.head? = some '<' := by
      rw [spelled] at here ⊢
      rw [(List.cons_prefix_cons.1 here).1]
      rfl
    refine ⟨?_, fun isMark => ?_⟩
    · rintro rfl
      have long := congrArg List.length behind
      rw [spelled] at long
      simp at long
    · obtain ⟨others, rfl⟩ := List.head?_eq_some_iff.1 isMark
      rcases alone p member opens with rfl | ⟨other, long⟩
      · cases behind
        simp only [isFinal, List.head?_cons, Option.any_some, beq_self_eq_true, Bool.and_self,
          Bool.or_true, Bool.not_true, Bool.or_false] at final
        exact absurd final (by decide +kernel)
      · refine other ?_
        rw [List.getElem?_eq_getElem long, ← List.prefix_iff_getElem?.1 here 1 long]
        rfl
  · rintro rfl
    obtain ⟨p, d, more, found, member, here, behind, final⟩ := recognised (by decide) (by decide +kernel)
    have long := congrArg List.length behind
    have filled := List.length_pos_iff.2 (toList_ne_nil p member)
    refine ⟨?_, ?_⟩
    · rintro rfl
      simp only [List.length_drop, List.length_cons, List.length_nil] at long
      omega
    · rintro rfl
      cases found.symm.trans (punct?_dashes x)
      cases behind

private theorem passGap_parts (strict : Bool) (gap : Gap) (offset : Nat) (afterBreak : Bool)
    (faults : List Nat) (text : List Char) :
    ∃ before, text = before ++ (passGap strict gap offset afterBreak faults text).text ∧
      (passGap strict gap offset afterBreak faults text).offset = offset + byteSize before := by
  fun_induction passGap strict gap offset afterBreak faults text
  all_goals first
    | exact ⟨[], rfl, rfl⟩
    | (rename_i ih
       obtain ⟨before, parts, size⟩ := ih
       exact ⟨_ :: before, congrArg (_ :: ·) parts, size.trans (Nat.add_assoc _ _ _)⟩)

theorem inside_of_size {n : Nat} (long : n ≤ (w ++ x).length)
    (small : byteSize ((w ++ x).take n) ≤ byteSize w) : n ≤ w.length := by
  induction w generalizing n with
  | nil =>
    cases n with
    | zero => exact Nat.le_refl 0
    | succ n =>
      cases x with
      | nil => exact long
      | cons c cs =>
        have filled := c.utf8Size_pos
        rw [List.nil_append, List.take_succ_cons] at small
        simp only [byteSize] at small
        omega
  | cons c cs ih =>
    cases n with
    | zero => exact Nat.zero_le _
    | succ n =>
      rw [List.cons_append, List.take_succ_cons] at small
      refine Nat.succ_le_succ (ih (Nat.le_of_succ_le_succ long) ?_)
      simp only [byteSize] at small
      omega

/-- A settled token is recognised by what it begins of the text before the limit. -/
theorem Token.isSettled.endsIn {strict afterBreak : Bool} {offset limit : Nat} {faults : List Nat}
    (size : offset + byteSize w = limit)
    (settled : Token.isSettled
      ⟨(piece strict offset (w ++ x)).kind, offset,
        offset + byteSize ((w ++ x).take (piece strict offset (w ++ x)).length),
        afterBreak, faults⟩
      ((w ++ x).drop (piece strict offset (w ++ x)).length) limit = true) :
    (piece strict offset (w ++ x)).EndsIn w := by
  generalize made : piece strict offset (w ++ x) = p at settled
  obtain ⟨r, reach, inside⟩ := (Option.any_eq_true ..).1 settled
  dsimp only at reach inside
  have small : byteSize ((w ++ x).take p.length) + r ≤ byteSize w := by
    have := of_decide_eq_true inside
    omega
  -- A character behind the piece that has been looked at is in `w` too.
  have followed {c : Char} {more : List Char} (behind : (w ++ x).drop p.length = c :: more)
      (size : c.utf8Size = r) :
      p.length < w.length ∧ (w.drop p.length).head? = some c := by
    have taken : (w ++ x).take (p.length + 1) = (w ++ x).take p.length ++ [c] := by
      rw [List.take_add, behind, List.take_succ_cons, List.take_zero]
    have long : p.length + 1 ≤ (w ++ x).length := by
      have := congrArg List.length behind
      simp only [List.length_drop, List.length_cons] at this
      omega
    have within : p.length + 1 ≤ w.length := by
      refine inside_of_size long ?_
      rw [taken, byteSize_append]
      simp only [byteSize]
      omega
    refine ⟨within, ?_⟩
    rw [List.drop_append_of_le_length (Nat.le_of_succ_le within)] at behind
    cases rest : w.drop p.length with
    | nil =>
      have := congrArg List.length rest
      simp only [List.length_drop, List.length_nil] at this
      omega
    | cons d others =>
      rw [rest, List.cons_append] at behind
      rw [(List.cons.inj behind).1]
      rfl
  unfold Piece.EndsIn
  unfold TokenKind.reach? at reach
  split at reach
  · cases reach
  · cases reach
  · rename_i mark isPunct
    have isPunct' : (piece strict offset (w ++ x)).kind = .punct mark := made ▸ isPunct
    obtain ⟨found, length⟩ := punct_of_piece isPunct'
    rw [made] at length
    split at reach
    · rename_i closed
      refine ⟨inside_of_size ?_ (Nat.le_trans (Nat.le_add_right ..) small), ?_⟩
      · rw [length, ← String.length_toList]
        exact (mem_of_punct? found).2.length_le
      · rw [isFinal, closed, Bool.true_or]
    · split at reach
      · cases reach
      · rename_i c more behind
        split at reach
        · cases reach
        · rename_i final
          obtain ⟨within, head⟩ := followed behind (Option.some.inj reach)
          refine ⟨Nat.le_of_lt within, ?_⟩
          rw [isFinal, head]
          simp only [Option.any_some, Bool.or_eq_true, Bool.not_eq_true']
          exact .inr (Bool.eq_false_iff.2 final)
  all_goals
    obtain ⟨c, head, size⟩ := Option.map_eq_some_iff.1 reach
    obtain ⟨more, behind⟩ := List.head?_eq_some_iff.1 head
    exact (followed behind size).1

/-- A settled token is the same whatever comes behind the text up to the limit. -/
theorem lex_append {strict : Bool} {offset limit : Nat} (size : offset + byteSize w = limit)
    (settled : (lex strict offset (w ++ x)).token.isSettled
      (lex strict offset (w ++ x)).rest limit = true) :
    ∃ text rest, text ≠ [] ∧ lex strict offset (w ++ x) =
        ⟨(lex strict offset (w ++ x)).token, text ++ x, rest ++ x⟩ ∧
      lex strict offset (w ++ y) =
        ⟨(lex strict offset (w ++ x)).token, text ++ y, rest ++ y⟩ ∧
      (lex strict offset (w ++ x)).token.start + byteSize text = limit ∧
      (lex strict offset (w ++ x)).token.stop + byteSize rest = limit := by
  generalize made : lex strict offset (w ++ x) = found at settled
  unfold lex at made
  dsimp only at made
  split at made
  · subst made
    cases settled
  rename_i closed
  obtain ⟨before, parts, place⟩ := passGap_parts strict .blank offset false [] (w ++ x)
  generalize gap : passGap strict .blank offset false [] (w ++ x) = ended at *
  subst made
  -- The gap ends before the limit, as the token does.
  obtain ⟨r, -, stops⟩ := (Option.any_eq_true ..).1 settled
  have inside : byteSize before ≤ byteSize w := by
    have := of_decide_eq_true stops
    dsimp only at this
    omega
  obtain ⟨text, rfl, here⟩ : ∃ text, w = before ++ text ∧ ended.text = text ++ x := by
    have within : before.length ≤ w.length := by
      refine inside_of_size (x := x) ?_ ?_
      · rw [parts]
        exact (List.prefix_append ..).length_le
      · rw [parts, List.take_left]
        exact inside
    have same := congrArg (List.take before.length) parts
    rw [List.take_left, List.take_append_of_le_length within] at same
    refine ⟨w.drop before.length, ?_, ?_⟩
    · rw [← same, List.length_take, Nat.min_eq_left within, List.take_append_drop]
    · have behind := congrArg (List.drop before.length) parts
      rw [List.drop_left, List.drop_append_of_le_length within] at behind
      exact behind.symm
  rw [byteSize_append, ← Nat.add_assoc, ← place] at size
  rw [here] at settled ⊢
  have ends := Token.isSettled.endsIn size settled
  have same := piece_append (y := y) ends
  obtain ⟨c, cs, rfl⟩ := List.exists_cons_of_ne_nil ends.ne_nil
  have gapSame := passGap_shared (y := y) strict .blank offset false []
    (w := before ++ c :: cs) ends.uncommented (by rw [gap]; exact here)
  rw [gap] at gapSame
  refine ⟨c :: cs, (c :: cs).drop (piece strict ended.offset (c :: cs ++ x)).length,
    List.cons_ne_nil _ _, ?_, ?_, size, ?_⟩
  · rw [List.drop_append_of_le_length ends.length_le]
  · unfold lex
    dsimp only
    rw [gapSame, closed]
    dsimp only
    rw [same, List.take_append_of_le_length ends.length_le,
      List.take_append_of_le_length ends.length_le, List.drop_append_of_le_length ends.length_le]
  · dsimp only
    rw [List.take_append_of_le_length ends.length_le, Nat.add_assoc, ← byteSize_append,
      List.take_append_drop, size]

end

end TypedSvelte.Script
