import TypedSvelte.Proofs.Markup.Containment

/-!
# Operands

An operand is what stands between two commas of a list: a text whose brackets are matched, which
has no comma outside of them and does not leave a string, a template literal or a comment open.
A reader that stops at the first comma or closing bracket outside of all brackets finds the end of
a text exactly if the text is an operand (`operandFrom_eq_length_iff`).
-/
namespace TypedSvelte.Markup

variable {c d : Char} {text rest after later : List Char} {depth n : Nat}

/-- The number of brackets open behind a piece, `depth` being open before it, unless the piece ends
the operand. -/
def depthAfter (kind? : Option TokenKind) (depth : Nat) : Option Nat :=
  match kind? with
  | some .comma => if depth = 0 then none else some depth
  | some (.closing _) => if depth = 0 then none else some (depth - 1)
  | some (.opening _) => some (depth + 1)
  | _ => some depth

/-- The number of characters before the first comma or closing bracket outside of brackets, strings,
template literals and comments, `depth` brackets being open. -/
def operandFrom (depth : Nat) : List Char → Option Nat
  | [] => none
  | c :: rest =>
    match depthAfter (lexeme c rest).1 depth with
    | none => some 0
    | some depth =>
      (operandFrom depth (rest.drop (lexeme c rest).2)).map (· + ((lexeme c rest).2 + 1))
  termination_by text => text.length
  decreasing_by simp only [List.length_drop, List.length_cons]; omega

/-- The text is what remains of an operand, `depth` of its brackets being open. -/
def isOperandFrom (depth : Nat) : List Char → Bool
  | [] => depth == 0
  | c :: rest =>
    match depthAfter (lexeme c rest).1 depth with
    | none => false
    | some depth => !unfinished c rest && isOperandFrom depth (rest.drop (lexeme c rest).2)
  termination_by text => text.length
  decreasing_by simp only [List.length_drop, List.length_cons]; omega

def isOperand (text : List Char) : Bool := isOperandFrom 0 text

def isStop (d : Char) : Bool := d == ',' || d == '}' || d == ')' || d == ']'

private theorem isStop_iff : isStop d = true ↔ ((d = ',' ∨ d = '}') ∨ d = ')') ∨ d = ']' := by
  simp [isStop]

private theorem isPlain_of_isStop (stop : isStop d = true) : isPlain d = true := by
  rcases isStop_iff.1 stop with ((rfl | rfl) | rfl) | rfl <;> rfl

private theorem mild_of_isStop (stop : isStop d = true) : Mild (d :: later) := by
  rintro e ⟨⟩
  rcases isStop_iff.1 stop with ((rfl | rfl) | rfl) | rfl <;> rfl

private theorem depthAfter_of_isStop (stop : isStop d = true) :
    depthAfter (lexeme d later).1 0 = none := by
  rcases isStop_iff.1 stop with ((rfl | rfl) | rfl) | rfl <;> rfl

/-- A piece that is a comma or a bracket is one whatever follows it. -/
theorem lexeme_of_depthAfter_eq_none (ends : depthAfter (lexeme c rest).1 depth = none) :
    (lexeme c later).1 = (lexeme c rest).1 := by
  cases leads c with
  | single read _ => rw [read, read rest]
  | run joins kind p mild read _ => rw [read, read rest]
  | quote isQuote =>
    rw [lexeme_quote isQuote] at ends
    cases complete : (quotedReach c rest).complete <;> simp [complete, depthAfter] at ends
  | backquote isBackquote =>
    subst isBackquote
    rw [lexeme_backquote] at ends
    cases complete : (templateReach 0 rest).complete <;> simp [complete, depthAfter] at ends
  | slash isSlash =>
    subst isSlash
    cases rest with
    | nil => cases ends
    | cons e tail =>
      by_cases line : e = '/'
      · subst line
        cases ends
      by_cases block : e = '*'
      · subst block
        rw [lexeme_block] at ends
        cases complete : (blockCommentReach tail).complete <;> simp [complete, depthAfter] at ends
      · rw [lexeme_slash fun f first => by cases first; exact ⟨line, block⟩] at ends
        cases ends

/-- An operand ends inside of the text. -/
theorem lt_length_of_operandFrom (found : operandFrom depth text = some n) : n < text.length := by
  fun_induction operandFrom depth text generalizing n with
  | case1 => cases found
  | case2 depth c rest ends =>
    cases found
    exact Nat.succ_pos _
  | case3 depth c rest depth' goesOn ih =>
    obtain ⟨m, inner, rfl⟩ := Option.map_eq_some_iff.1 found
    have bound := ih inner
    rw [List.length_drop] at bound
    rw [List.length_cons]
    omega

/-- The end of an operand is found without looking at what follows it. -/
theorem operandFrom_append (found : operandFrom depth text = some n) :
    operandFrom depth (text ++ later) = some n := by
  fun_induction operandFrom depth text generalizing n with
  | case1 => cases found
  | case2 depth c rest ends =>
    have same : (lexeme c (rest ++ later)).1 = _ := lexeme_of_depthAfter_eq_none ends
    rw [List.cons_append, operandFrom, same, ends]
    exact found
  | case3 depth c rest depth' goesOn ih =>
    obtain ⟨m, inner, rfl⟩ := Option.map_eq_some_iff.1 found
    have inside := lt_length_of_operandFrom inner
    rw [List.length_drop] at inside
    have finished : unfinished c rest = false := by
      by_contra isUnfinished
      have takes := @lexeme_takes c rest [] [] ((Bool.not_eq_false _).mp isUnfinished) nofun
      rw [List.append_nil, List.append_nil, List.length_nil] at takes
      omega
    have same : lexeme c (rest ++ later) = _ := lexeme_append finished (.inr (.inl (by omega)))
    rw [List.cons_append, operandFrom, same, goesOn]
    dsimp only
    rw [List.drop_append_of_le_length (by omega), ih inner]
    rfl

/-- What comes before a stop is an operand exactly if the operand that is read there ends at the
stop. -/
theorem operandFrom_eq_length_iff (stop : isStop d = true) :
    operandFrom depth (text ++ d :: later) = some text.length ↔
      isOperandFrom depth text = true := by
  fun_induction isOperandFrom depth text with
  | case1 depth =>
    rw [List.nil_append, operandFrom, List.length_nil, beq_iff_eq]
    cases depth with
    | zero =>
      rw [depthAfter_of_isStop stop]
      simp
    | succ depth =>
      have deeper : depth + 1 ≠ 0 := Nat.succ_ne_zero depth
      constructor
      · intro found
        split at found
        · rename_i ends
          rcases isStop_iff.1 stop with ((rfl | rfl) | rfl) | rfl <;> cases ends
        · obtain ⟨m, _, size⟩ := Option.map_eq_some_iff.1 found
          omega
      · intro none
        omega
  | case2 depth c rest ends =>
    have same : (lexeme c (rest ++ d :: later)).1 = _ := lexeme_of_depthAfter_eq_none ends
    rw [List.cons_append, operandFrom, same, ends]
    simp
  | case3 depth c rest depth' goesOn ih =>
    cases isUnfinished : unfinished c rest with
    | true =>
      have takes := @lexeme_takes c rest [d] later isUnfinished
        (List.forall_mem_singleton.2 (isPlain_of_isStop stop))
      rw [List.singleton_append, List.length_singleton] at takes
      simp only [Bool.not_true, Bool.false_and, Bool.false_eq_true, iff_false]
      rw [List.cons_append, operandFrom, List.length_cons]
      split
      · simp
      · intro found
        obtain ⟨m, _, size⟩ := Option.map_eq_some_iff.1 found
        omega
    | false =>
      have same : lexeme c (rest ++ d :: later) = _ :=
        lexeme_append isUnfinished (.inr (.inr (mild_of_isStop stop)))
      have fits := length_lexeme_le c rest
      rw [List.cons_append, operandFrom, same, goesOn]
      dsimp only
      rw [List.drop_append_of_le_length fits, Bool.not_false, Bool.true_and, ← ih,
        List.length_drop, List.length_cons]
      generalize operandFrom depth' _ = inner
      constructor
      · intro found
        obtain ⟨m, rfl, size⟩ := Option.map_eq_some_iff.1 found
        rw [Option.some_inj]
        omega
      · rintro rfl
        rw [Option.map_some, Option.some_inj]
        omega

theorem operandFrom_operand (operand : isOperand text = true) (stop : isStop d = true) :
    operandFrom 0 (text ++ d :: later) = some text.length :=
  (operandFrom_eq_length_iff stop).2 operand

/-- A piece that is none of the text's brackets and commas. -/
theorem operandFrom_piece {kind? : Option TokenKind} {depth' : Nat}
    (read : lexeme c (rest ++ later) = (kind?, rest.length))
    (goesOn : depthAfter kind? depth = some depth') :
    operandFrom depth (c :: rest ++ later) =
      (operandFrom depth' later).map (· + (rest.length + 1)) := by
  rw [List.cons_append, operandFrom, read]
  dsimp only
  rw [goesOn, List.drop_left]

theorem operandFrom_mark (kind? : Option TokenKind) {depth' : Nat}
    (read : lexeme c text = (kind?, 0)) (goesOn : depthAfter kind? depth = some depth') :
    operandFrom depth ([c] ++ text) = (operandFrom depth' text).map (· + 1) :=
  operandFrom_piece read goesOn

private theorem depthAfter_add {kind? : Option TokenKind} {depth' : Nat}
    (goesOn : depthAfter kind? depth = some depth') (more : Nat) :
    depthAfter kind? (depth + more) = some (depth' + more) := by
  unfold depthAfter at goesOn ⊢
  split <;> split at goesOn <;> simp_all <;> omega

/-- Within other brackets an operand is passed over. -/
theorem operandFrom_append_operand {more : Nat} (operand : isOperandFrom depth text = true)
    (stop : isStop d = true) :
    operandFrom (depth + more) (text ++ d :: later) =
      (operandFrom more (d :: later)).map (· + text.length) := by
  fun_induction isOperandFrom depth text with
  | case1 depth =>
    rw [eq_of_beq operand, Nat.zero_add]
    exact Option.map_id'.symm
  | case2 => cases operand
  | case3 depth c rest depth' goesOn ih =>
    obtain ⟨isFinished, others⟩ := (Bool.and_eq_true_iff ..).1 operand
    have finished : unfinished c rest = false := by simpa using isFinished
    have same : lexeme c (rest ++ d :: later) = _ :=
      lexeme_append finished (.inr (.inr (mild_of_isStop stop)))
    have fits := length_lexeme_le c rest
    rw [List.cons_append, operandFrom, same, depthAfter_add goesOn]
    dsimp only
    rw [List.drop_append_of_le_length fits, ih others, Option.map_map, List.length_drop,
      List.length_cons]
    congr 1
    funext m
    dsimp only [Function.comp]
    omega

end TypedSvelte.Markup
