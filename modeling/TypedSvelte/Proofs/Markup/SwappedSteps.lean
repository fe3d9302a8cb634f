import TypedSvelte.Proofs.Markup.Lookahead
import TypedSvelte.Proofs.Markup.Dispatch
import TypedSvelte.Proofs.Markup.Safety

/-!
# Steps before a place

A step that notes no error and leaves at least the last `k` characters of the source is taken in the
same way whatever these are (`Reading.Takes.swap`), and so is every run of such steps
(`Reading.Reached.swap`).
-/
namespace TypedSvelte.Markup

open Scan

variable {k n : Nat} {tail : List Char} {s : Scan}

namespace Reading

/-- No character but these two ends a text. -/
theorem any_head?_of_endsText {text : List Char} {p : Char → Bool} (ends : EndsText text)
    (tag : p '<' = false) (brace : p '{' = false) : text.head?.any p = false := by
  cases text with
  | nil => rfl
  | cons c rest =>
    unfold EndsText at ends
    rw [textLength_cons] at ends
    split at ends
    · rename_i stops
      simp only [Bool.or_eq_true, Bool.and_eq_true, beq_iff_eq] at stops
      rcases stops with rfl | ⟨rfl, _⟩
      · exact brace
      · exact tag
    · cases ends

theorem endsText_drop (text : List Char) : EndsText (text.drop (textLength text)) := by
  induction text with
  | nil => rfl
  | cons c rest ih =>
    rw [textLength_cons]
    split
    · rename_i stops
      unfold EndsText
      rw [List.drop_zero, textLength_cons, if_pos stops]
    · exact ih

section

variable {text : List Char} (positive : 0 < k) (left : textLength text + k ≤ text.length)
  (ends : EndsText (swapEnd k tail (text.drop (textLength text))))

include positive left ends

/-- A character is kept, or a text ends here both before and after. -/
theorem text_swapEnd : (EndsText text ∧ EndsText (swapEnd k tail text)) ∨
    ∃ c rest, text = c :: rest ∧ textLength text = textLength rest + 1 ∧
      textLength rest + k ≤ rest.length ∧ swapEnd k tail text = c :: swapEnd k tail rest ∧
      EndsText (swapEnd k tail (rest.drop (textLength rest))) := by
  cases text with
  | nil =>
    rw [List.length_nil] at left
    omega
  | cons c rest =>
    by_cases stops : EndsText (c :: rest)
    · unfold EndsText at stops
      rw [stops, List.drop_zero] at ends
      exact Or.inl ⟨stops, ends⟩
    · have further : textLength (c :: rest) = textLength rest + 1 := by
        unfold EndsText at stops
        rw [textLength_cons] at stops ⊢
        split at stops
        · exact absurd rfl stops
        · rename_i goesOn
          rw [if_neg goesOn]
      rw [further] at left ends
      rw [List.length_cons] at left
      exact Or.inr ⟨c, rest, rfl, further, by omega, swapEnd_cons (by omega), ends⟩

/-- A word that cannot end a text is ahead exactly if it was before. -/
theorem isPrefixOf_swapEnd_text {literal : List Char} (plain : ∀ d ∈ literal, d ≠ '<' ∧ d ≠ '{') :
    literal.isPrefixOf (swapEnd k tail text) = literal.isPrefixOf text := by
  induction literal generalizing text with
  | nil => rfl
  | cons d ds ih =>
    obtain ⟨other, plainRest⟩ := List.forall_mem_cons.1 plain
    have whole (text : List Char) : (d :: ds).isPrefixOf text =
        (text.head?.any (· == d) && ds.isPrefixOf text.tail) := by
      cases text with
      | nil => rfl
      | cons c rest =>
        rw [List.isPrefixOf_cons_cons, Bool.beq_comm]
        rfl
    rcases text_swapEnd positive left ends with ⟨before, after⟩ | ⟨c, rest, rfl, _, leftRest, swapped, endsRest⟩
    · have tag : ('<' == d) = false := beq_eq_false_iff_ne.2 other.1.symm
      have brace : ('{' == d) = false := beq_eq_false_iff_ne.2 other.2.symm
      rw [whole, whole text, any_head?_of_endsText before tag brace,
        any_head?_of_endsText after tag brace, Bool.false_and, Bool.false_and]
    · rw [swapped, List.isPrefixOf_cons_cons, List.isPrefixOf_cons_cons, ih leftRest endsRest plainRest]

private theorem opensTag_swapEnd : opensTag (swapEnd k tail text) = opensTag text := by
  have mark : "!--".toList.isPrefixOf (swapEnd k tail text) = "!--".toList.isPrefixOf text :=
    isPrefixOf_swapEnd_text positive left ends (by simp)
  unfold opensTag
  rw [mark]
  congr 1
  rcases text_swapEnd positive left ends with ⟨before, after⟩ | ⟨c, rest, rfl, _, _, swapped, _⟩
  · rw [any_head?_of_endsText before rfl rfl, any_head?_of_endsText after rfl rfl]
  · rw [swapped]
    rfl

/-- A text ends at the same place. -/
theorem textLength_swapEnd : textLength (swapEnd k tail text) = textLength text := by
  induction text with
  | nil =>
    rw [List.length_nil] at left
    omega
  | cons c rest ih =>
    rcases text_swapEnd positive left ends with
      ⟨before, after⟩ | ⟨d, others, same, further, leftRest, swapped, endsRest⟩
    · exact after.trans before.symm
    · cases same
      have goesOn : (c == '{' || (c == '<' && opensTag rest)) = false := by
        rw [Bool.eq_false_iff]
        intro stops
        rw [textLength_cons, if_pos stops] at further
        cases further
      rw [swapped, further, textLength_cons, opensTag_swapEnd positive leftRest endsRest, goesOn,
        ih leftRest endsRest]
      rfl

end

variable {r next : Reading}

/-- The same reading of a source whose last `k` characters are others. -/
def swap (k : Nat) (tail : List Char) (r : Reading) : Reading := r.moveTo (r.scan.swap k tail)

section

variable (positive : 0 < k)

include positive

private theorem readText_swap (left : k ≤ r.readText.scan.rest.length)
    (ends : EndsText (r.readText.scan.swap k tail).rest) :
    (r.swap k tail).readText = r.readText.swap k tail := by
  have bound : textLength r.scan.rest.tail + 1 + k ≤ r.scan.rest.length := le_of_skip positive left
  have inner : textLength r.scan.rest.tail + k ≤ r.scan.rest.tail.length := by
    rw [List.length_tail]
    omega
  have tailSwapped : (r.swap k tail).scan.rest.tail = swapEnd k tail r.scan.rest.tail := by
    have dropped := @drop_swapEnd k 1 tail r.scan.rest (by omega)
    rw [List.drop_one, List.drop_one] at dropped
    exact dropped
  have behind : EndsText (swapEnd k tail (r.scan.rest.tail.drop (textLength r.scan.rest.tail))) := by
    rw [List.drop_tail]
    exact ends
  have size := textLength_swapEnd positive inner behind
  unfold readText at left ⊢
  dsimp only
  rw [tailSwapped, size]
  have skip : (r.swap k tail).scan.skip (textLength r.scan.rest.tail + 1) =
      (r.scan.skip (textLength r.scan.rest.tail + 1)).swap k tail := skip_swap positive left
  have text : (r.swap k tail).scan.rawText (textLength r.scan.rest.tail + 1) =
      r.scan.rawText (textLength r.scan.rest.tail + 1) := rawText_swap positive left
  rw [skip, text]
  rfl

private theorem readComment_swap (tail : List Char) (left : k ≤ r.readComment.scan.rest.length) :
    (r.swap k tail).readComment = r.readComment.swap k tail ∧ 4 + k ≤ r.scan.rest.length := by
  unfold readComment at left ⊢
  dsimp only at left ⊢
  cases found : findText? "-->".toList (r.scan.skip 4).rest with
  | none =>
    rw [found] at left
    simp [Reading.add, skipAll] at left
    omega
  | some n =>
    rw [found] at left
    have leftBody : k ≤ (r.scan.skip 4).rest.length := Nat.le_trans left (length_skip_le _ _)
    have skip : (r.swap k tail).scan.skip 4 = (r.scan.skip 4).swap k tail :=
      skip_swap positive leftBody
    have bound : n + 3 + k ≤ (r.scan.skip 4).rest.length := le_of_skip positive left
    have same : findText? "-->".toList ((r.scan.skip 4).swap k tail).rest = some n :=
      findText?_swapEnd found bound
    have text : ((r.scan.skip 4).swap k tail).rest.take n = (r.scan.skip 4).rest.take n :=
      take_swapEnd (by omega)
    rw [skip, same]
    dsimp only
    rw [skip_swap positive left, text]
    exact ⟨rfl, le_of_skip positive leftBody⟩

private theorem readMustache_swap (tail : List Char) (left : k ≤ r.readMustache.scan.rest.length) :
    (r.swap k tail).readMustache = r.readMustache.swap k tail ∧ 2 + k ≤ r.scan.rest.length := by
  have leftRead : k ≤ ((r.scan.skip 1).expression r.scan.pos).2.rest.length := by
    unfold readMustache at left
    dsimp only at left
    split at left
    · exact left
    · split at left
      · exact left
      · exact left
  have leftBody := Nat.lt_of_le_of_lt leftRead (length_expression_lt positive leftRead)
  have skip : (r.swap k tail).scan.skip 1 = (r.scan.skip 1).swap k tail :=
    skip_swap positive leftBody.le
  have pos : (r.swap k tail).scan.pos = r.scan.pos := rfl
  refine ⟨?_, by rw [rest_skip, List.length_drop] at leftBody; omega⟩
  unfold readMustache
  dsimp only
  rw [skip, pos, expression_swap positive leftRead]
  cases ((r.scan.skip 1).expression r.scan.pos).1 with
  | none => rfl
  | some e =>
    dsimp only
    split <;> rfl

/-- A word in braces and the expression behind it. -/
theorem wordExpression_swap (tail : List Char) {opening : Nat}
    (left : k ≤ ((s.skip 2).word.2.expression opening).2.rest.length) :
    ((s.swap k tail).skip 2).word = ((s.skip 2).word.1, (s.skip 2).word.2.swap k tail) ∧
      ((s.skip 2).word.2.swap k tail).expression opening =
        (((s.skip 2).word.2.expression opening).1,
          ((s.skip 2).word.2.expression opening).2.swap k tail) ∧ 2 + k ≤ s.rest.length := by
  have leftWord := Nat.lt_of_le_of_lt left (length_expression_lt positive left)
  have leftStart := Nat.le_trans leftWord.le (length_word_le _)
  rw [skip_swap positive leftStart, word_swap positive leftWord, expression_swap positive left]
  exact ⟨rfl, rfl, le_of_skip positive leftStart⟩

private theorem readTag_swap (tail : List Char) (left : k ≤ r.readTag.scan.rest.length) :
    (r.swap k tail).readTag = r.readTag.swap k tail ∧ 2 + k ≤ r.scan.rest.length := by
  have leftRead : k ≤ ((r.scan.skip 2).word.2.expression r.scan.pos).2.rest.length := by
    unfold readTag at left
    dsimp only at left
    split at left
    · exact left
    · exact left
    · exact left
  obtain ⟨word, expression, bound⟩ := wordExpression_swap positive tail leftRead
  have start : (r.swap k tail).scan = r.scan.swap k tail := rfl
  have pos : (r.scan.swap k tail).pos = r.scan.pos := rfl
  refine ⟨?_, bound⟩
  unfold readTag
  dsimp only
  rw [start, pos, word]
  dsimp only
  rw [expression]
  cases ((r.scan.skip 2).word.2.expression r.scan.pos).1 with
  | none => rfl
  | some e => cases tagKind? (r.scan.skip 2).word.1 <;> rfl

private theorem readBlock_swap (tail : List Char) (left : k ≤ r.readBlock.scan.rest.length) :
    (r.swap k tail).readBlock = r.readBlock.swap k tail ∧ 2 + k ≤ r.scan.rest.length := by
  have leftRead : k ≤ ((r.scan.skip 2).word.2.expression r.scan.pos).2.rest.length := by
    unfold readBlock at left
    dsimp only at left
    split at left
    · exact left
    · split at left
      · exact left
      · exact left
  obtain ⟨word, expression, bound⟩ := wordExpression_swap positive tail leftRead
  have start : (r.swap k tail).scan = r.scan.swap k tail := rfl
  have pos : (r.scan.swap k tail).pos = r.scan.pos := rfl
  refine ⟨?_, bound⟩
  unfold readBlock
  dsimp only
  rw [start, pos, word]
  dsimp only
  rw [expression]
  cases ((r.scan.skip 2).word.2.expression r.scan.pos).1 with
  | none => rfl
  | some header =>
    dsimp only
    cases blockConstruct? r.scan.pos (r.scan.skip 2).word.1 header <;> rfl

omit positive in
private theorem addScript_swap (script : Script) :
    (r.swap k tail).addScript script = (r.addScript script).swap k tail := by
  unfold addScript
  split
  · change (if r.moduleScript.isSome then _ else _) = _
    split <;> rfl
  · change (if r.instanceScript.isSome then _ else _) = _
    split <;> rfl

omit positive in
/-- Where the reading goes on behind a script or style, whatever becomes of it. -/
theorem rest_readRaw (start : Nat) (name : String) (attributes : List Attribute) :
    (r.readRaw start name attributes).scan.rest =
      match findText? ("</" ++ name).toList r.scan.rest with
      | some n => ((r.scan.skip n).skipPast '>').rest
      | none => [] := by
  unfold readRaw
  dsimp only
  cases findText? ("</" ++ name).toList r.scan.rest with
  | some n =>
    dsimp only
    split
    · rfl
    · split
      · rfl
      · exact scan_addScript_rest _ _
  | none =>
    have nothing : (r.scan.skip r.scan.rest.length).rest = [] := List.drop_length
    dsimp only
    split
    · exact nothing
    · split
      · exact nothing
      · exact (scan_addScript_rest _ _).trans nothing

/-- The closing tag of a script or style that ends inside the source. -/
theorem closing_found {name : String} (known : name = "script" ∨ name = "style") {start : Nat}
    {attributes : List Attribute} (left : k ≤ (r.readRaw start name attributes).scan.rest.length) :
    ∃ n, findText? ("</" ++ name).toList r.scan.rest = some n ∧
      n + ("</" ++ name).toList.length + k ≤ r.scan.rest.length ∧
      k ≤ ((r.scan.skip n).skipPast '>').rest.length := by
  rw [rest_readRaw] at left
  cases found : findText? ("</" ++ name).toList r.scan.rest with
  | none =>
    rw [found, List.length_nil] at left
    omega
  | some n =>
    rw [found] at left
    have absent : '>' ∉ ("</" ++ name).toList := by rcases known with rfl | rfl <;> decide
    obtain ⟨closer, rest, _, begins⟩ :=
      skipPast_passes (s := r.scan.skip n) (findText?_spec found) absent
    have sizes := congrArg List.length rest
    have shorter := begins.length_le
    rw [rest_skip, List.length_drop, List.length_append] at sizes
    exact ⟨n, rfl, by dsimp only at left; omega, left⟩

private theorem readRaw_swap {name : String} (known : name = "script" ∨ name = "style") {start : Nat}
    {attributes : List Attribute} (left : k ≤ (r.readRaw start name attributes).scan.rest.length) :
    (r.swap k tail).readRaw start name attributes =
      (r.readRaw start name attributes).swap k tail := by
  obtain ⟨n, found, bound, leftLast⟩ := closing_found positive known left
  have leftClosing := Nat.le_trans leftLast (length_skipPast_le _ _)
  have scan : (r.swap k tail).scan = r.scan.swap k tail := rfl
  have same : findText? ("</" ++ name).toList (r.scan.swap k tail).rest = some n :=
    findText?_swapEnd found bound
  have skip : (r.scan.swap k tail).skip n = (r.scan.skip n).swap k tail :=
    skip_swap positive leftClosing
  have text : (r.scan.swap k tail).rest.take n = r.scan.rest.take n := take_swapEnd (by omega)
  unfold readRaw
  dsimp only
  rw [scan, same, found]
  dsimp only [Option.getD_some]
  rw [skip, skipPast_swap positive leftLast, text]
  have stack : (r.swap k tail).stack = r.stack := rfl
  rw [stack]
  split
  · rfl
  · split
    · rfl
    · exact @addScript_swap k tail (r.moveTo ((r.scan.skip n).skipPast '>')) _

/-- An opening tag that ends inside the source without an error ends with a mark. -/
theorem tagEnd_cases {name : String} {start : Nat} (left : k ≤ (tagEnd s name start).2.rest.length)
    (accepted : (tagEnd s name start).2.errors = []) :
    s.startsWith "/>" = true ∧ 2 + k ≤ s.rest.length ∧ tagEnd s name start = (true, s.skip 2) ∨
      s.startsWith "/>" = false ∧ s.startsWith ">" = true ∧ 1 + k ≤ s.rest.length ∧
        tagEnd s name start = (false, s.skip 1) := by
  unfold tagEnd at left accepted ⊢
  split at left
  · rename_i closes
    exact Or.inl ⟨closes, le_of_skip positive left, by rw [if_pos closes]⟩
  · rename_i opens
    split at left
    · rename_i ends
      exact Or.inr ⟨by simpa using opens, ends, le_of_skip positive left,
        by rw [if_neg opens, if_pos ends]⟩
    · rename_i goesOn
      rw [if_neg opens, if_neg goesOn] at accepted
      cases accepted

private theorem tagEnd_swap {name : String} {start : Nat} (left : k ≤ (tagEnd s name start).2.rest.length)
    (accepted : (tagEnd s name start).2.errors = []) :
    tagEnd (s.swap k tail) name start =
      ((tagEnd s name start).1, (tagEnd s name start).2.swap k tail) := by
  rcases tagEnd_cases positive left accepted with ⟨closes, bound, read⟩ | ⟨opens, ends, bound, read⟩
  · rw [read] at left ⊢
    have same : (s.swap k tail).startsWith "/>" = s.startsWith "/>" := startsWith_swap rfl bound
    rw [tagEnd, same, if_pos closes, skip_swap positive left]
  · rw [read] at left ⊢
    have same : (s.swap k tail).startsWith ">" = s.startsWith ">" := startsWith_swap rfl bound
    -- the first character is kept, and it is not a slash
    have notClosing : (s.swap k tail).startsWith "/>" = false := by
      have first := rest_swap tail (rest_of_startsWith ends) (Nat.add_comm 1 k ▸ bound)
      unfold startsWith
      rw [first]
      rfl
    rw [tagEnd, notClosing, same, ends, skip_swap positive left]
    rfl

omit positive in
theorem errors_addScript (r : Reading) (script : Script) :
    r.scan.errors <:+ (r.addScript script).scan.errors := by
  unfold addScript
  split
  · split
    · exact List.suffix_cons _ _
    · exact List.suffix_rfl
  · split
    · exact List.suffix_cons _ _
    · exact List.suffix_rfl

omit positive in
private theorem errors_readRaw (start : Nat) (name : String) (attributes : List Attribute) :
    r.scan.errors <:+ (r.readRaw start name attributes).scan.errors := by
  have last (n : Nat) : ((r.scan.skip n).skipPast '>').errors = r.scan.errors := by
    unfold skipPast
    split <;> rfl
  unfold readRaw
  dsimp only
  cases findText? ("</" ++ name).toList r.scan.rest with
  | some n =>
    have kept : r.scan.errors <:+ ((r.scan.skip n).skipPast '>').errors :=
      (last n).symm ▸ List.suffix_rfl
    dsimp only [Option.getD_some]
    split
    · exact kept
    · split
      · exact kept
      · exact kept.trans (errors_addScript (r.moveTo _) _)
  | none =>
    have kept := List.suffix_cons (MarkupError.mk (.unclosedTag name)
      ⟨start, max (r.scan.skip r.scan.rest.length).pos start⟩) r.scan.errors
    dsimp only [Option.getD_none]
    split
    · exact kept
    · split
      · exact kept
      · exact kept.trans (errors_addScript (r.moveTo ((r.scan.skip r.scan.rest.length).fail
          (.unclosedTag name) start)) _)

theorem openingTag_swap (tail : List Char) (left : k ≤ r.openingTag.scan.rest.length)
    (accepted : r.openingTag.scan.errors = []) :
    (r.swap k tail).openingTag =
        { r.openingTag with scan := r.openingTag.scan.swap k tail } ∧
      2 + k ≤ r.scan.rest.length := by
  have scan : (r.swap k tail).scan = r.scan.swap k tail := rfl
  have pos : (r.scan.swap k tail).pos = r.scan.pos := rfl
  unfold openingTag at left accepted ⊢
  dsimp only at left accepted ⊢
  generalize size : (r.scan.skip 1).count (fun c => !(isBlank c || c == '/' || c == '>')) = n
    at left accepted ⊢
  generalize named : String.ofList ((r.scan.skip 1).rest.take n) = name at left accepted ⊢
  have leftTag : k < ((r.scan.skip 1).skip n).attributes.2.rest.length := by
    rcases tagEnd_cases positive left accepted with ⟨_, bound, _⟩ | ⟨_, _, bound, _⟩ <;> omega
  have leftName := Nat.lt_of_lt_of_le leftTag (length_attributes_le _)
  have leftStart := Nat.le_trans leftName.le (length_skip_le _ _)
  have skip : (r.scan.swap k tail).skip 1 = (r.scan.skip 1).swap k tail :=
    skip_swap positive leftStart
  have sizeSwapped : ((r.scan.skip 1).swap k tail).count
      (fun c => !(isBlank c || c == '/' || c == '>')) = n := by
    rw [count_swap, size]
    rw [size]
    exact leftName
  have attributes : (((r.scan.skip 1).skip n).swap k tail).attributes =
      (((r.scan.skip 1).skip n).attributes.1,
        ((r.scan.skip 1).skip n).attributes.2.swap k tail) := by
    apply attributes_swap positive leftTag
    intro closes
    rcases tagEnd_cases positive left accepted with ⟨_, bound, _⟩ | ⟨opens, _⟩
    · exact bound
    · rw [opens] at closes
      cases closes
  refine ⟨?_, ?_⟩
  · rw [scan, pos, skip, sizeSwapped, take_rest_swap positive leftName.le, named,
      skip_swap positive leftName.le, attributes]
    dsimp only
    rw [tagEnd_swap positive left accepted]
  · rw [rest_skip, List.length_drop] at leftName
    rw [rest_skip, List.length_drop] at leftName
    omega

omit positive in
/-- What is done behind an opening tag keeps its errors. -/
theorem accepted_openingTag (accepted : r.readElement.scan.errors = []) :
    r.openingTag.scan.errors = [] := by
  rw [readElement_eq] at accepted
  split at accepted
  · have kept := errors_readRaw (r := r.moveTo r.openingTag.scan) r.scan.pos r.openingTag.name
      r.openingTag.attributes
    rw [accepted] at kept
    exact List.suffix_nil.1 kept
  · split at accepted
    · exact accepted
    · exact accepted

private theorem readElement_swap (tail : List Char) (left : k ≤ r.readElement.scan.rest.length)
    (accepted : r.readElement.scan.errors = []) :
    (r.swap k tail).readElement = r.readElement.swap k tail ∧ 2 + k ≤ r.scan.rest.length := by
  have leftTag : k ≤ r.openingTag.scan.rest.length := by
    rw [readElement_eq] at left
    split at left
    · exact Nat.le_trans left (length_readRaw_le _ _ _ _)
    · split at left
      · exact left
      · exact left
  obtain ⟨same, bound⟩ := openingTag_swap positive tail leftTag (accepted_openingTag accepted)
  refine ⟨?_, bound⟩
  have isRaw : (r.swap k tail).openingTag.isRaw = r.openingTag.isRaw := by
    rw [same]
    rfl
  rw [readElement_eq, readElement_eq, isRaw, same]
  rw [readElement_eq] at left
  split
  · rename_i raw
    rw [if_pos raw] at left
    exact readRaw_swap (r := r.moveTo r.openingTag.scan) positive (OpeningTag.known raw) left
  · split <;> rfl

end

section

variable (positive : 0 < k)

include positive

private theorem stops_of_continuation (left : k ≤ (continuation s).2.rest.length) : Stops k s '}' :=
  (stops_of_expression positive left).of_skip.of_skip

private theorem continuation_swap (left : k ≤ (continuation s).2.rest.length) :
    continuation (s.swap k tail) = ((continuation s).1, (continuation s).2.swap k tail) := by
  obtain ⟨word, expression, _⟩ := wordExpression_swap positive tail left
  have pos : (s.swap k tail).pos = s.pos := rfl
  unfold continuation
  dsimp only
  rw [pos, word]
  dsimp only
  rw [expression]

private theorem closeBlock_swap (tail : List Char) {block : String}
    (absent : '}' ∉ ("\x7b/" ++ block).toList) {start : Nat}
    (left : k ≤ (closeBlock s block start).rest.length)
    (accepted : (closeBlock s block start).errors = []) :
    closeBlock (s.swap k tail) block start = (closeBlock s block start).swap k tail ∧
      Stops k s '}' := by
  unfold closeBlock at left accepted ⊢
  split at left
  · rename_i ends
    have stops := stops_of_skipPast positive left
    rw [stops.atWord absent, if_pos ends, if_pos ends]
    exact ⟨skipPast_swap positive left, stops⟩
  · rename_i other
    rw [if_neg other] at accepted
    cases accepted

private theorem closeTag_swap (tail : List Char) {name : String} {start : Nat}
    (left : k ≤ (closeTag s name start).rest.length)
    (accepted : (closeTag s name start).errors = []) :
    closeTag (s.swap k tail) name start = (closeTag s name start).swap k tail ∧ Stops k s '>' := by
  unfold closeTag at left accepted ⊢
  dsimp only at left accepted ⊢
  split at left
  · rename_i closes
    split at left
    · rename_i same
      have stops := stops_of_skipPast positive left
      obtain ⟨again, longer⟩ : (s.swap k tail).startsWith "</" = s.startsWith "</" ∧
          (s.startsWith "</" = true → 3 + k ≤ s.rest.length) := stops.isPrefixOf tail (by decide)
      have bound := longer closes
      have dropped : (s.swap k tail).rest.drop 2 = swapEnd k tail (s.rest.drop 2) :=
        drop_swapEnd (by omega)
      have name : ((s.swap k tail).rest.drop 2).takeWhile (fun c => !(isBlank c || c == '>')) =
          (s.rest.drop 2).takeWhile fun c => !(isBlank c || c == '>') := by
        have passed : s.rest.take 2 = ['<', '/'] := by
          rw [rest_of_startsWith closes]
          rfl
        have absent : '>' ∉ s.rest.take 2 := by
          rw [passed]
          decide
        rw [dropped]
        exact takeWhile_swapEnd ((stops.skip absent).takeWhile rfl)
      rw [again, if_pos closes, if_pos closes, name, if_pos same, if_pos same]
      exact ⟨skipPast_swap positive left, stops⟩
    · rename_i other
      rw [if_pos closes, if_neg other] at accepted
      cases accepted
  · rename_i open_
    rw [if_neg open_] at accepted
    cases accepted

omit positive in
/-- The same closing in a source whose last `k` characters are others. -/
def Closing.swap (k : Nat) (tail : List Char) : Closing → Closing
  | .goesOn scan construct => .goesOn (scan.swap k tail) construct
  | .closed scan node => .closed (scan.swap k tail) node

private theorem closeCondition_swap (tail : List Char) {arms : List Arm} {alternate : Alternate}
    (left : k ≤ (closeCondition s arms alternate).scan.rest.length)
    (accepted : (closeCondition s arms alternate).scan.errors = []) :
    closeCondition (s.swap k tail) arms alternate = (closeCondition s arms alternate).swap k tail ∧
      Stops k s '}' := by
  obtain ⟨same, stops⟩ := closeBlock_swap positive tail (by decide) left accepted
  refine ⟨?_, stops⟩
  unfold closeCondition
  dsimp only
  rw [same]
  rfl

private theorem closeAwait_swap {a : Awaiting} (left : k ≤ (closeAwait s a).scan.rest.length)
    (accepted : (closeAwait s a).scan.errors = []) :
    closeAwait (s.swap k tail) a = (closeAwait s a).swap k tail ∧ Stops k s '}' := by
  have next (stops : Stops k s '}') : nextBranch? (s.swap k tail) a = nextBranch? s a := by
    have word (branch : AwaitBranch) :
        (s.swap k tail).atWord "\x7b:" branch.word = s.atWord "\x7b:" branch.word :=
      stops.atWord (by cases branch <;> decide)
    unfold nextBranch?
    simp only [word]
  unfold closeAwait at left accepted ⊢
  cases found : nextBranch? s a with
  | some branch =>
    rw [found] at left
    have stops := stops_of_continuation positive left
    rw [next stops, found]
    dsimp only
    rw [continuation_swap positive left]
    exact ⟨rfl, stops⟩
  | none =>
    rw [found] at left accepted
    obtain ⟨same, stops⟩ := closeBlock_swap positive tail (by decide) left accepted
    rw [next stops, found]
    dsimp only
    rw [same]
    exact ⟨rfl, stops⟩

private theorem close_swap (tail : List Char) {nodes : List Node} {construct : Construct}
    (left : k ≤ (close s nodes construct).scan.rest.length)
    (accepted : (close s nodes construct).scan.errors = []) :
    close (s.swap k tail) nodes construct = (close s nodes construct).swap k tail ∧
      (Stops k s '>' ∨ Stops k s '}') := by
  have pos : (s.swap k tail).pos = s.pos := rfl
  have word (stops : Stops k s '}') :
      (s.swap k tail).atWord "\x7b:" "else" = s.atWord "\x7b:" "else" := stops.atWord (by decide)
  cases construct with
  | element start name attributes =>
    obtain ⟨same, stops⟩ := closeTag_swap positive tail left accepted
    refine ⟨?_, .inl stops⟩
    simp only [close]
    rw [same]
    rfl
  | arm start condition earlier =>
    simp only [close] at left accepted ⊢
    split at left
    · rename_i other
      have leftRead : k ≤ (continuation s).2.rest.length := by
        split at left
        · exact left
        · split at left
          · exact left
          · exact left
      have stops := stops_of_continuation positive leftRead
      rw [word stops, if_pos other, if_pos other, continuation_swap positive leftRead, pos]
      refine ⟨?_, .inr stops⟩
      dsimp only
      cases (continuation s).1 with
      | none => rfl
      | some rest =>
        dsimp only
        cases elseIfCondition? rest <;> rfl
    · rename_i ends
      rw [if_neg ends] at accepted
      obtain ⟨same, stops⟩ := closeCondition_swap positive tail left accepted
      rw [word stops, if_neg ends, if_neg ends]
      exact ⟨same, .inr stops⟩
  | otherwise arms =>
    exact (closeCondition_swap positive tail left accepted).imp_right .inr
  | eachBody start header =>
    simp only [close] at left accepted ⊢
    split at left
    · rename_i other
      have stops := stops_of_continuation positive left
      rw [word stops, if_pos other, if_pos other, continuation_swap positive left]
      exact ⟨rfl, .inr stops⟩
    · rename_i ends
      rw [if_neg ends] at accepted
      obtain ⟨same, stops⟩ := closeBlock_swap positive tail (by decide) left accepted
      rw [word stops, if_neg ends, if_neg ends, same]
      exact ⟨rfl, .inr stops⟩
  | eachFallback start header body =>
    obtain ⟨same, stops⟩ := closeBlock_swap positive tail (by decide) left accepted
    refine ⟨?_, .inr stops⟩
    simp only [close]
    rw [same]
    rfl
  | awaitPending start e => exact (closeAwait_swap positive left accepted).imp_right .inr
  | awaitBranch done branch binding =>
    exact (closeAwait_swap positive left accepted).imp_right .inr
  | key start e =>
    obtain ⟨same, stops⟩ := closeBlock_swap positive tail (by decide) left accepted
    refine ⟨?_, .inr stops⟩
    simp only [close]
    rw [same]
    rfl

omit positive in
/-- The two characters that a closing tag begins with. -/
theorem closer_ahead (closer : s.atCloser = true) :
    ∃ c d rest, s.rest = c :: d :: rest ∧ (c = '<' ∧ d = '/' ∨ c = '{' ∧ (d = '/' ∨ d = ':')) := by
  unfold atCloser at closer
  split at closer
  · rename_i rest ahead
    exact ⟨_, _, rest, ahead, .inl ⟨rfl, rfl⟩⟩
  · rename_i rest ahead
    exact ⟨_, _, rest, ahead, .inr ⟨rfl, .inl rfl⟩⟩
  · rename_i rest ahead
    exact ⟨_, _, rest, ahead, .inr ⟨rfl, .inr rfl⟩⟩
  · cases closer

omit positive in
/-- Nor is either of them passed by looking for the end of the tag. -/
theorem two_of_stops {c d : Char} {rest : List Char} (ahead : s.rest = c :: d :: rest)
    (marks : c = '<' ∧ d = '/' ∨ c = '{' ∧ (d = '/' ∨ d = ':'))
    (stops : Stops k s '>' ∨ Stops k s '}') : 2 + k ≤ s.rest.length := by
  have behind (mark : Char) (stops : Stops k s mark) (absent : mark ∉ [c, d]) :
      2 + k ≤ s.rest.length := by
    have passed : s.rest.take 2 = [c, d] := by rw [ahead]; rfl
    obtain ⟨n, _, left⟩ := stops.skip (passed ▸ absent)
    rw [rest_skip, List.length_drop] at left
    omega
  rcases stops with stops | stops
  · apply behind _ stops
    rcases marks with ⟨rfl, rfl⟩ | ⟨rfl, rfl | rfl⟩ <;> decide
  · apply behind _ stops
    rcases marks with ⟨rfl, rfl⟩ | ⟨rfl, rfl | rfl⟩ <;> decide

/-- A step that leaves the end of the source alone, and whether it begins where a text ends. -/
theorem Takes.swap (takes : r.Takes next) (left : k ≤ next.scan.rest.length)
    (accepted : next.scan.errors = [])
    (ends : EndsText next.scan.rest → EndsText (next.scan.swap k tail).rest) :
    (r.swap k tail).Takes (next.swap k tail) ∧
      (EndsText r.scan.rest → EndsText (r.scan.swap k tail).rest) := by
  cases takes with
  | @comment rest ahead =>
    obtain ⟨same, bound⟩ := readComment_swap positive tail left
    have here : (r.scan.swap k tail).rest = '<' :: '!' :: '-' :: '-' :: swapEnd k tail rest := by
      have size := congrArg List.length ahead
      simp only [List.length_cons] at size
      rw [rest_swap_two tail ahead (by omega), swapEnd_cons, swapEnd_cons]
      · omega
      · rw [List.length_cons]
        omega
    exact ⟨same ▸ .comment here, fun _ => here ▸ rfl⟩
  | element ahead letter =>
    obtain ⟨same, bound⟩ := readElement_swap positive tail left accepted
    have here := rest_swap_two tail ahead bound
    refine ⟨same ▸ .element here letter, fun _ => ?_⟩
    rw [here, EndsText, textLength_cons, if_pos]
    simp [opensTag, letter]
  | block ahead =>
    obtain ⟨same, bound⟩ := readBlock_swap positive tail left
    have here := rest_swap_two tail ahead bound
    exact ⟨same ▸ .block here, fun _ => here ▸ endsText_brace⟩
  | tag ahead =>
    obtain ⟨same, bound⟩ := readTag_swap positive tail left
    have here := rest_swap_two tail ahead bound
    exact ⟨same ▸ .tag here, fun _ => here ▸ endsText_brace⟩
  | @mustache rest ahead other =>
    obtain ⟨same, bound⟩ := readMustache_swap positive tail left
    have size := congrArg List.length ahead
    rw [List.length_cons] at size
    obtain ⟨d, others, begins⟩ := List.exists_cons_of_length_pos (l := rest) (by omega)
    have here := rest_swap_two tail (ahead.trans (congrArg (List.cons '{') begins)) bound
    have first := other d (by rw [begins]; rfl)
    refine ⟨same ▸ .mustache here fun c head => ?_, fun _ => here ▸ endsText_brace⟩
    cases head
    exact first
  | @text c rest ahead goesOn =>
    have bound : textLength rest + 1 + k ≤ r.scan.rest.length := by
      have passed := le_of_skip positive left
      rw [ahead] at passed ⊢
      exact passed
    have size := congrArg List.length ahead
    rw [List.length_cons] at size
    have behind : EndsText (r.readText.scan.swap k tail).rest := by
      apply ends
      unfold readText
      change EndsText (r.scan.rest.drop (textLength r.scan.rest.tail + 1))
      rw [ahead]
      exact endsText_drop rest
    have inner : EndsText (swapEnd k tail (rest.drop (textLength rest))) := by
      change EndsText (swapEnd k tail (r.scan.rest.drop (textLength r.scan.rest.tail + 1))) at behind
      rw [ahead] at behind
      exact behind
    have kept : k < r.scan.rest.length := by omega
    have here := rest_swap tail ahead kept
    have inside : textLength rest + k ≤ rest.length := by omega
    refine ⟨readText_swap positive left behind ▸ .text here ?_, fun stops => ?_⟩
    · rw [opensTag_swapEnd positive inside inner]
      exact goesOn
    · rw [ahead, EndsText, textLength_cons, goesOn] at stops
      cases stops
  | @closer frame outer top closer =>
    rw [scan_leave] at left accepted
    obtain ⟨same, stops⟩ := close_swap positive tail left accepted
    have leave : (r.swap k tail).leave frame outer = (r.leave frame outer).swap k tail := by
      have closing : close (r.swap k tail).scan (r.swap k tail).nodes.reverse frame.construct =
          (close r.scan r.nodes.reverse frame.construct).swap k tail := same
      unfold Reading.leave
      rw [closing]
      cases close r.scan r.nodes.reverse frame.construct <;> rfl
    have more : r.scan.atEnd = false := by
      rw [atEnd, List.isEmpty_eq_false_iff, ← List.length_pos_iff]
      rcases stops with ⟨_, _, bound⟩ | ⟨_, _, bound⟩ <;> omega
    rw [more, Bool.false_or] at closer
    obtain ⟨c, d, rest, ahead, marks⟩ := closer_ahead closer
    have here := rest_swap_two tail ahead (two_of_stops ahead marks stops)
    refine ⟨leave ▸ .closer top ?_, fun _ => ?_⟩
    · have again : (r.swap k tail).scan.atCloser = true := by
        change (r.scan.swap k tail).atCloser = true
        unfold atCloser
        rw [here]
        rcases marks with ⟨rfl, rfl⟩ | ⟨rfl, rfl | rfl⟩ <;> rfl
      rw [again, Bool.or_true]
    · rw [here]
      rcases marks with ⟨rfl, rfl⟩ | ⟨rfl, rfl | rfl⟩ <;> rfl
  | stray top more closer =>
    exfalso
    unfold strayCloser at accepted
    dsimp only at accepted
    split at accepted
    · cases accepted
    · split at accepted
      · cases accepted
      · cases accepted

omit positive in
/-- A reading that the pass comes by before the end of the source changes. -/
theorem Reached.swap (positive : 0 < k) {source : String} (reached : Reached source n r)
    (left : k ≤ r.scan.rest.length) (accepted : r.scan.errors = [])
    (ends : EndsText r.scan.rest → EndsText (r.scan.swap k tail).rest) :
    Reached (String.ofList (swapEnd k tail source.toList)) n (r.swap k tail) := by
  induction reached with
  | start =>
    have begins : Reading.start (String.ofList (swapEnd k tail source.toList)) =
        (Reading.start source).swap k tail := by
      unfold Reading.start ofSource
      rw [String.toList_ofList]
      rfl
    rw [← begins]
    exact .start
  | step before stepped ih =>
    have leads := before.placed.leads_step stepped
    have leftBefore := Nat.le_trans left leads.reached.length_le
    have acceptedBefore : _ = [] := List.suffix_nil.1 (accepted ▸ leads.kept)
    obtain ⟨takes, endsBefore⟩ := (takes_of_step stepped).swap positive left accepted ends
    exact .step (ih leftBefore acceptedBefore endsBefore) (step_of_takes takes)

end

end Reading

end TypedSvelte.Markup
