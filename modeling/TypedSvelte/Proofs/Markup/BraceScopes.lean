import TypedSvelte.Proofs.Markup.Phrases

/-!
# Innermost braces

The braces that are open at a place of a text are those among the tokens before it that have not
been closed there. Tokens whose closings all have their openings among them leave the braces around
them as they are, and the braces they leave open stand among them (`openBraces_append_outer`,
`mem_openBraces`).
-/
namespace TypedSvelte.Markup

variable {t : Token} {ts us : List Token} {stack : List Nat} {b d n offset : Nat} {text : List Char}

/-- The places of the braces that are open behind a token, the innermost first. -/
def openAfter (stack : List Nat) (t : Token) : List Nat :=
  match t.kind with
  | .opening .brace => t.start :: stack
  | .closing .brace => stack.tail
  | _ => stack

/-- The places of the braces that are open behind the tokens, the innermost first. -/
def openBraces (stack : List Nat) (ts : List Token) : List Nat := ts.foldl openAfter stack

/-- The place of the innermost brace that is open at an offset of a text. -/
def innermostBrace? (text : String) (offset : Nat) : Option Nat :=
  (openBraces [] ((tokens text.toList).filter (·.start < offset))).head?

theorem openBraces_append :
    openBraces stack (ts ++ us) = openBraces (openBraces stack ts) us :=
  List.foldl_append

private theorem openAfter_of_braces (after : bracesAfter stack.length t.kind = some n) :
    (openAfter stack t).length = n ∧
      ∀ outer, openAfter (stack ++ outer) t = openAfter stack t ++ outer := by
  obtain ⟨kind, start, chars⟩ := t
  cases kind with
  | opening bracket =>
    cases bracket with
    | brace | paren | square =>
      cases Option.some.inj after
      exact ⟨rfl, fun _ => rfl⟩
  | closing bracket =>
    cases bracket with
    | brace =>
      cases stack with
      | nil => cases after
      | cons b stack =>
        cases Option.some.inj after
        exact ⟨rfl, fun _ => rfl⟩
    | paren | square =>
      cases Option.some.inj after
      exact ⟨rfl, fun _ => rfl⟩
  | ident | number | string | template | comment | comma | punct =>
    cases Option.some.inj after
    exact ⟨rfl, fun _ => rfl⟩

/-- Tokens that close no brace around them leave these as they are. -/
theorem openBraces_append_outer (behind : bracesBehind stack.length ts = some d) :
    (openBraces stack ts).length = d ∧
      ∀ outer, openBraces (stack ++ outer) ts = openBraces stack ts ++ outer := by
  induction ts generalizing stack with
  | nil =>
    cases behind
    exact ⟨rfl, fun _ => rfl⟩
  | cons t ts ih =>
    rw [bracesBehind_cons] at behind
    obtain ⟨next, after, later⟩ := Option.bind_eq_some_iff.1 behind
    obtain ⟨size, around⟩ := openAfter_of_braces after
    rw [← size] at later
    obtain ⟨total, further⟩ := ih later
    refine ⟨total, fun outer => ?_⟩
    change openBraces (openAfter (stack ++ outer) t) ts = _
    rw [around]
    exact further outer

/-- Tokens that match their braces change nothing. -/
theorem openBraces_of_matched (matched : bracesBehind 0 ts = some 0) :
    openBraces stack ts = stack := by
  obtain ⟨size, around⟩ := @openBraces_append_outer ts [] 0 matched
  rw [← List.nil_append stack, around, List.length_eq_zero_iff.1 size]

theorem mem_openBraces (member : b ∈ openBraces stack ts) : b ∈ stack ∨ ∃ t ∈ ts, t.start = b := by
  induction ts generalizing stack with
  | nil => exact .inl member
  | cons t ts ih =>
    rcases ih member with before | ⟨later, inLater, start⟩
    · unfold openAfter at before
      split at before
      · rcases List.mem_cons.1 before with rfl | inStack
        · exact .inr ⟨t, .head _, rfl⟩
        · exact .inl inStack
      · exact .inl (List.mem_of_mem_tail before)
      · exact .inl before
    · exact .inr ⟨later, .tail _ inLater, start⟩

/-- How many braces a text leaves open does not depend on where it stands. -/
theorem bracesBehind_tokensFrom : bracesBehind n (tokensFrom offset text) =
    bracesBehind n (tokens text) := by
  rw [tokensFrom_eq]
  generalize tokens text = ts
  induction ts generalizing n with
  | nil => rfl
  | cons t ts ih =>
    rw [List.map_cons, bracesBehind_cons, bracesBehind_cons]
    exact congrArg _ (funext fun _ => ih)

end TypedSvelte.Markup
