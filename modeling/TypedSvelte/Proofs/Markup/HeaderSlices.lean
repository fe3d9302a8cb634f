import Mathlib.Logic.Basic
import TypedSvelte.Markup.Tag
import TypedSvelte.Proofs.Markup.Placement

/-!
# Where headers are cut

The header of a block is cut at tokens of its text. A token is a slice of the text it was read from
(`in_of_mem_tokensFrom`), and brackets and commas are one byte long, so every cut of a header lies on
a character boundary, and the cuts are in order. To say so, the functions that take headers apart
are written down once more with slices that may fail (`EachHeader.split?` and its like); none of
them ever does.
-/
namespace TypedSvelte.Markup

def TokenKind.mark? : TokenKind → Option Char
  | .opening .brace => some '{'
  | .closing .brace => some '}'
  | .opening .paren => some '('
  | .closing .paren => some ')'
  | .opening .square => some '['
  | .closing .square => some ']'
  | .comma => some ','
  | _ => none

/-- A bracket or a comma is a token of its own. -/
theorem lexeme_mark {c mark : Char} {rest : List Char} {kind : TokenKind} {n : Nat}
    (read : lexeme c rest = (some kind, n)) (isMark : kind.mark? = some mark) :
    c = mark ∧ n = 0 := by
  have unmarked {other : TokenKind} {m : Nat} (none : other.mark? = none)
      (same : (some other, m) = (some kind, n)) : False := by
    cases same
    rw [none] at isMark
    cases isMark
  have piece {other : TokenKind} {r : Reach} (none : other.mark? = none)
      (same : (if r.complete then some other else .none, r.length) = (some kind, n)) : False := by
    split at same
    · exact unmarked none same
    · cases same
  have marked {other : TokenKind} {d : Char} (isChar : (c == d) = true)
      (marks : other.mark? = some d) (same : (some other, 0) = (some kind, n)) :
      c = mark ∧ n = 0 := by
    cases same
    rw [marks] at isMark
    cases isMark
    exact ⟨eq_of_beq isChar, rfl⟩
  unfold lexeme at read
  dsimp only at read
  rcases ite_eq_iff.1 read with ⟨_, read⟩ | ⟨_, read⟩
  · cases read
  rcases ite_eq_iff.1 read with ⟨_, read⟩ | ⟨_, read⟩
  · exact (unmarked rfl read).elim
  rcases ite_eq_iff.1 read with ⟨_, read⟩ | ⟨_, read⟩
  · exact (unmarked rfl read).elim
  rcases ite_eq_iff.1 read with ⟨_, read⟩ | ⟨_, read⟩
  · exact (piece rfl read).elim
  rcases ite_eq_iff.1 read with ⟨_, read⟩ | ⟨_, read⟩
  · exact (piece rfl read).elim
  rcases ite_eq_iff.1 read with ⟨_, read⟩ | ⟨_, read⟩
  · exact (unmarked rfl read).elim
  rcases ite_eq_iff.1 read with ⟨_, read⟩ | ⟨_, read⟩
  · exact (piece rfl read).elim
  iterate 7
    rcases ite_eq_iff.1 read with ⟨isChar, read⟩ | ⟨_, read⟩
    · exact marked isChar rfl read
  rcases ite_eq_iff.1 read with ⟨_, read⟩ | ⟨_, read⟩
  · exact (unmarked rfl read).elim
  · cases read

/-- What is known of a token that was read from a text: it is the slice that its span covers, and a
bracket or comma is one character. -/
structure Token.In (text : String) (t : Token) : Prop where
  slice : slice? text t.start t.stop = some t.text
  single : ∀ mark, t.kind.mark? = some mark → t.chars = [mark]

variable {t : Token}

theorem le_start_of_mem {text : List Char} {offset : Nat} (member : t ∈ tokensFrom offset text) :
    offset ≤ t.start := by
  fun_induction tokensFrom offset text with
  | case1 offset => cases member
  | case2 offset c rest length chars later kind read ih =>
    rcases List.mem_cons.1 member with rfl | inLater
    · exact Nat.le_refl _
    · exact Nat.le_trans (Nat.le_add_right _ _) (ih inLater)
  | case3 offset c rest length chars later read ih =>
    exact Nat.le_trans (Nat.le_add_right _ _) (ih member)

/-- Tokens follow one another. -/
theorem ordered_tokensFrom (offset : Nat) (text : List Char) :
    (tokensFrom offset text).Pairwise (·.stop ≤ ·.start) := by
  fun_induction tokensFrom offset text with
  | case1 offset => exact .nil
  | case2 offset c rest length chars later kind read ih =>
    exact List.pairwise_cons.2 ⟨fun _ inLater => le_start_of_mem inLater, ih⟩
  | case3 offset c rest length chars later read ih => exact ih

theorem in_of_mem_tokensFrom {whole text : List Char} {offset : Nat}
    (member : t ∈ tokensFrom offset text) :
    ∀ before, whole = before ++ text → byteSize before = offset → t.In (String.ofList whole) := by
  fun_induction tokensFrom offset text with
  | case1 offset => cases member
  | case2 offset c rest length chars later kind read ih =>
    intro before parts size
    have passed : whole = before ++ chars ++ rest.drop length := by
      rw [parts, List.append_assoc]
      exact congrArg (before ++ c :: ·) (List.take_append_drop length rest).symm
    rcases List.mem_cons.1 member with rfl | inLater
    · refine ⟨(slice?_eq_some_iff _ _ _ _).2 ⟨String.ofList before, String.ofList (rest.drop length),
        ?_, ?_, ?_⟩, fun mark isMark => ?_⟩
      · rw [Token.text, ← String.ofList_append, ← String.ofList_append, ← passed]
      · rw [utf8ByteSize_ofList, size]
      · exact congrArg (offset + ·) (utf8ByteSize_ofList chars)
      · obtain ⟨rfl, rfl⟩ := lexeme_mark read isMark
        rfl
    · exact ih inLater _ passed (by rw [byteSize_append, size])
  | case3 offset c rest length chars later read ih =>
    intro before parts size
    have passed : whole = before ++ chars ++ rest.drop length := by
      rw [parts, List.append_assoc]
      exact congrArg (before ++ c :: ·) (List.take_append_drop length rest).symm
    exact ih member _ passed (by rw [byteSize_append, size])

theorem outermost_sublist (depth : Nat) (ts : List Token) : (outermost depth ts).Sublist ts := by
  fun_induction outermost depth ts with
  | case1 depth => exact .slnil
  | case2 depth t rest bracket isOpening ground ih => exact ih.cons_cons t
  | case3 depth t rest bracket isOpening inner ih => exact ih.cons t
  | case4 depth t rest bracket isClosing ground ih => exact ih.cons_cons t
  | case5 depth t rest bracket isClosing inner ih => exact ih.cons t
  | case6 depth t rest notOpening notClosing ground ih => exact ih.cons_cons t
  | case7 depth t rest notOpening notClosing inner ih => exact ih.cons t

variable {text : List Char}

private theorem topLevelTokens_sublist (text : List Char) : (topLevelTokens text).Sublist (tokens text) :=
  outermost_sublist 0 _

theorem in_of_mem_topLevelTokens (member : t ∈ topLevelTokens text) : t.In (String.ofList text) :=
  in_of_mem_tokensFrom ((topLevelTokens_sublist text).subset member) [] rfl rfl

/-- A word is found where it stands. -/
theorem slice?_of_findWord? {word : String} {s : Span} (found : findWord? text word = some s) :
    slice? (String.ofList text) s.start s.stop = some word := by
  obtain ⟨t, first, rfl⟩ := Option.map_eq_some_iff.1 found
  have isWord := List.find?_some first
  simp only [Token.isWord, Bool.and_eq_true, beq_iff_eq] at isWord
  have slice := (in_of_mem_topLevelTokens (List.mem_of_find?_eq_some first)).slice
  rw [isWord.2] at slice
  exact slice

/-- A bracket or a comma is where its token stands. -/
theorem Token.In.slice?_mark {whole : String} (token : t.In whole) (mark : Char)
    (isMark : t.kind.mark? = some mark) :
    slice? whole t.start t.stop = some (String.singleton mark) ∧
      t.stop = t.start + mark.utf8Size := by
  have single := token.single mark isMark
  have slice := token.slice
  rw [Token.text, single] at slice
  refine ⟨slice, ?_⟩
  rw [Token.stop, single]
  rfl

private theorem kind_of_find? {ts : List Token} {kind : TokenKind}
    (found : ts.find? (·.kind == kind) = some t) : t.kind = kind ∧ t ∈ ts := by
  have same := List.find?_some found
  exact ⟨eq_of_beq same, List.mem_of_find?_eq_some found⟩

/-- A comma is found where it stands. -/
theorem slice?_of_findComma? {comma : Nat} (found : findComma? text = some comma) :
    slice? (String.ofList text) comma (comma + 1) = some "," := by
  obtain ⟨t, first, rfl⟩ := Option.map_eq_some_iff.1 found
  obtain ⟨isComma, member⟩ := kind_of_find? first
  obtain ⟨slice, stop⟩ :=
    (in_of_mem_topLevelTokens member).slice?_mark ',' (by rw [isComma]; rfl)
  rw [stop] at slice
  exact slice

/-- A group is found from its opening parenthesis to its closing one, which stands behind it. -/
theorem slices_of_trailingGroup? {group : Span} (found : trailingGroup? text = some group) :
    slice? (String.ofList text) group.start (group.start + 1) = some "(" ∧
      slice? (String.ofList text) (group.stop - 1) group.stop = some ")" ∧
      group.start + 1 ≤ group.stop - 1 := by
  unfold trailingGroup? at found
  obtain ⟨last, isLast, found⟩ := Option.bind_eq_some_iff.1 found
  obtain ⟨closes, found⟩ := Option.ite_none_right_eq_some.1 found
  obtain ⟨first, isFirst, found⟩ := Option.bind_eq_some_iff.1 found
  cases Option.some.inj found
  simp only [Bool.and_eq_true, beq_iff_eq] at closes
  obtain ⟨opens, member⟩ := kind_of_find? isFirst
  obtain ⟨later, whole⟩ := List.head?_eq_some_iff.1 isLast
  have inTop {t : Token} (member : t ∈ (topLevelTokens text).reverse) : t.In (String.ofList text) :=
    in_of_mem_topLevelTokens (List.mem_reverse.1 member)
  obtain ⟨opening, openingStop⟩ :=
    (inTop member).slice?_mark '(' (by rw [opens]; rfl)
  obtain ⟨closing, closingStop⟩ :=
    (inTop (List.mem_of_mem_head? isLast)).slice?_mark ')' (by rw [closes.1]; rfl)
  -- the tokens are looked through from the last one on, so the opening one stands before it
  have before : first.stop ≤ last.start := by
    have ordered := (ordered_tokensFrom 0 text).sublist (topLevelTokens_sublist text)
    rw [← List.reverse_reverse (topLevelTokens text), List.pairwise_reverse, whole] at ordered
    rw [whole] at member
    rcases List.mem_cons.1 member with rfl | inLater
    · rw [opens] at closes
      cases closes.1
    · exact (List.pairwise_cons.1 ordered).1 first inLater
  rw [openingStop] at opening before
  have size : last.stop - 1 = last.start := by
    rw [closingStop]
    rfl
  refine ⟨opening, ?_, ?_⟩
  · change slice? _ (last.stop - 1) last.stop = _
    rw [size]
    exact closing
  · change first.start + 1 ≤ last.stop - 1
    rw [size]
    exact before

/-- `Expression.slice?` where a slice of the text may fail. -/
def Expression.cut? (e : Expression) (start stop : Nat) : Option (Option Expression) :=
  (TypedSvelte.slice? e.text start stop).map fun raw =>
    let part := ofText (e.span.start + start) raw.toList
    if part.isEmpty then none else some part

/-- `splitBinding` with slices that may fail. -/
def splitBinding? (header : Expression) (start stop : Nat) :
    Option (Option Expression × Option Expression) := do
  let binding ← slice? header.text start stop
  match findComma? binding.toList with
  | some comma =>
    let context ← header.cut? start (start + comma)
    let index ← header.cut? (start + comma + 1) stop
    some (context, index)
  | none =>
    let context ← header.cut? start stop
    some (context, none)

/-- `EachHeader.split` with slices that may fail. -/
def EachHeader.split? (header : Expression) : Option EachHeader :=
  match findWord? header.chars "as" with
  | none => some ⟨header, none, none, none⟩
  | some word => do
    let size := header.text.utf8ByteSize
    let after ← slice? header.text word.stop size
    let (bindingStop, key) ←
      match trailingGroup? after.toList with
      | some group => do
        let key ← header.cut? (word.stop + group.start + 1) (word.stop + group.stop - 1)
        some (word.stop + group.start, key)
      | none => some (size, none)
    let (context, index) ← splitBinding? header word.stop bindingStop
    let expression ← header.cut? 0 word.start
    some ⟨expression.getD header, context, index, key⟩

/-- `AwaitHeader.split` with slices that may fail. -/
def AwaitHeader.split? (header : Expression) : Option AwaitHeader :=
  let branch (kind : AwaitBranch) (word : Span) : Option AwaitHeader := do
    let expression ← header.cut? 0 word.start
    let binding ← header.cut? word.stop header.text.utf8ByteSize
    some ⟨expression.getD header, some (kind, binding)⟩
  match findWord? header.chars AwaitBranch.then_.word with
  | some word => branch .then_ word
  | none =>
    match findWord? header.chars AwaitBranch.catch_.word with
    | some word => branch .catch_ word
    | none => some ⟨header, none⟩

/-- `elseIfCondition?` with slices that may fail. -/
def elseIfConditionChecked (rest : Expression) : Option (Option Expression) :=
  match findWord? rest.chars "if" with
  | some word =>
    if word.start == 0 then rest.cut? word.stop rest.text.utf8ByteSize else some none
  | none => some none

/-- `Scan.bracedAttribute?` with slices that may fail. -/
def bracedAttributeChecked (e : Expression) : Option (Option Attribute) :=
  if e.text.startsWith "..." then (e.cut? 3 e.text.utf8ByteSize).map (·.map .spread)
  else some (some (.shorthand e))

variable {header : Expression} {start stop : Nat}

theorem cut?_eq (first : IsCut header.text start) (last : IsCut header.text stop)
    (ordered : start ≤ stop) : header.cut? start stop = some (header.slice? start stop) := by
  obtain ⟨text, slice⟩ := exists_slice? first last ordered
  unfold Expression.cut? Expression.slice? Span.text
  rw [slice]
  rfl

theorem isCut_size (text : String) : IsCut text text.utf8ByteSize :=
  isCut_iff.2 ⟨text, "", (String.append_empty ..).symm, rfl⟩

theorem isCut_zero (text : String) : IsCut text 0 :=
  isCut_iff.2 ⟨"", text, (String.empty_append ..).symm, rfl⟩

/-- A word of a header is cut out at character boundaries. -/
theorem fits_of_findWord? {word : String} {s : Span} (found : findWord? header.chars word = some s) :
    s.Fits header.text := by
  have slice := slice?_of_findWord? found
  rw [Expression.chars, String.ofList_toList] at slice
  exact .of_slice? slice

theorem splitBinding?_eq (first : IsCut header.text start) (last : IsCut header.text stop)
    (ordered : start ≤ stop) :
    splitBinding? header start stop = some (splitBinding header start stop) := by
  obtain ⟨binding, slice⟩ := exists_slice? first last ordered
  have text : (Span.mk start stop).text header.text = binding := by
    unfold Span.text
    rw [slice]
    rfl
  unfold splitBinding? splitBinding
  rw [slice, text]
  cases found : findComma? binding.toList with
  | none =>
    have context := cut?_eq first last ordered
    simp only [Option.bind_eq_bind, Option.bind_some, found, context]
  | some comma =>
    have mark := slice?_of_findComma? found
    rw [String.ofList_toList] at mark
    obtain ⟨before, behind⟩ := cuts_of_slice? mark
    have fits := behind.le
    have size := stop_of_slice? slice
    have context := cut?_eq first (before.of_slice? slice) (Nat.le_add_right _ _)
    have index := cut?_eq (behind.of_slice? slice) last (by omega)
    rw [← Nat.add_assoc] at index
    simp only [Option.bind_eq_bind, Option.bind_some, found, context, index]

theorem eachHeader_split? (header : Expression) :
    EachHeader.split? header = some (EachHeader.split header) := by
  unfold EachHeader.split? EachHeader.split
  cases found : findWord? header.chars "as" with
  | none => rfl
  | some word =>
    have fits := fits_of_findWord? found
    have behind := fits.stop.le
    obtain ⟨after, slice⟩ := exists_slice? fits.stop (isCut_size header.text) behind
    have text : (Span.mk word.stop header.text.utf8ByteSize).text header.text = after := by
      unfold Span.text
      rw [slice]
      rfl
    have size := stop_of_slice? slice
    have expression := cut?_eq (isCut_zero header.text) fits.start (Nat.zero_le _)
    dsimp only
    rw [slice, text]
    cases key : trailingGroup? after.toList with
    | none =>
      have binding := splitBinding?_eq fits.stop (isCut_size header.text) behind
      simp only [Option.bind_eq_bind, Option.bind_some, key, binding, expression]
    | some group =>
      obtain ⟨opening, closing, inside⟩ := slices_of_trailingGroup? key
      rw [String.ofList_toList] at opening closing
      obtain ⟨first, second⟩ := cuts_of_slice? opening
      obtain ⟨third, fourth⟩ := cuts_of_slice? closing
      have binding := splitBinding?_eq fits.stop (first.of_slice? slice) (Nat.le_add_right _ _)
      have inner := cut?_eq (second.of_slice? slice) (third.of_slice? slice) (by omega)
      have last : word.stop + (group.stop - 1) = word.stop + group.stop - 1 := by omega
      rw [last, ← Nat.add_assoc] at inner
      simp only [Option.bind_eq_bind, Option.bind_some, key, binding, expression, inner]

theorem awaitHeader_split? (header : Expression) :
    AwaitHeader.split? header = some (AwaitHeader.split header) := by
  have branch {kind : AwaitBranch} {word : Span}
      (found : findWord? header.chars kind.word = some word) :
      header.cut? 0 word.start = some (header.slice? 0 word.start) ∧
        header.cut? word.stop header.text.utf8ByteSize = some (header.after? word.stop) := by
    have fits := fits_of_findWord? found
    exact ⟨cut?_eq (isCut_zero _) fits.start (Nat.zero_le _),
      cut?_eq fits.stop (isCut_size _) fits.stop.le⟩
  unfold AwaitHeader.split? AwaitHeader.split
  dsimp only
  cases onThen : findWord? header.chars AwaitBranch.then_.word with
  | some word =>
    obtain ⟨subject, binding⟩ := branch onThen
    simp [subject, binding]
  | none =>
    cases onCatch : findWord? header.chars AwaitBranch.catch_.word with
    | some word =>
      obtain ⟨subject, binding⟩ := branch onCatch
      simp [subject, binding]
    | none => simp

theorem elseIfConditionChecked_eq (rest : Expression) :
    elseIfConditionChecked rest = some (elseIfCondition? rest) := by
  unfold elseIfConditionChecked elseIfCondition?
  cases found : findWord? rest.chars "if" with
  | none => rfl
  | some word =>
    have fits := fits_of_findWord? found
    dsimp only
    split
    · exact cut?_eq fits.stop (isCut_size _) fits.stop.le
    · rfl

theorem bracedAttributeChecked_eq (e : Expression) :
    bracedAttributeChecked e = some (Scan.bracedAttribute? e) := by
  unfold bracedAttributeChecked Scan.bracedAttribute?
  split
  · rename_i dots
    obtain ⟨props, whole⟩ := String.startsWith_string_iff.1 dots
    have cut : IsCut e.text 3 := by
      refine isCut_iff.2 ⟨"...", String.ofList props, ?_, rfl⟩
      rw [← String.ofList_toList (s := e.text), ← whole, String.ofList_append, String.ofList_toList]
    rw [cut?_eq cut (isCut_size _) cut.le]
    rfl
  · rfl

end TypedSvelte.Markup
