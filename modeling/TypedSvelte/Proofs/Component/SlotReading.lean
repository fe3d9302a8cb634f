import TypedSvelte.Component.Transpile
import TypedSvelte.Proofs.Markup.Operands
import TypedSvelte.Proofs.Outcome

/-!
# Reading the text of slots back

The text of slots is written as an object literal of object literals. A reader that splits it at
the commas outside of brackets, strings, template literals and comments, and each entry at its first
colon, is given here. It recovers the slots exactly if the value of each property is an operand
(`readSlots_text_iff`); names never matter, since they are quoted where they have to be.
-/
namespace TypedSvelte.Component

open Markup

/-- What a string literal in double quotes spells, from behind its opening quote. -/
def unquote : List Char → Option (List Char)
  | [] => none
  | ['"'] => some []
  | '\\' :: 'n' :: rest => (unquote rest).map ('\n' :: ·)
  | '\\' :: c :: rest => (unquote rest).map (c :: ·)
  | c :: rest => (unquote rest).map (c :: ·)

def keyName : List Char → Option String
  | '"' :: rest => (unquote rest).map String.ofList
  | key => some (String.ofList key)

/-- The number of characters before the first colon outside of strings, template literals and
comments. -/
def colonFrom : List Char → Option Nat
  | [] => none
  | c :: rest =>
    if c == ':' then some 0
    else (colonFrom (rest.drop (lexeme c rest).2)).map (· + ((lexeme c rest).2 + 1))
  termination_by text => text.length
  decreasing_by simp only [List.length_drop, List.length_cons]; omega

/-- The name and the value of an entry, which its first colon separates. -/
def readEntry (entry : List Char) : Option (String × List Char) := do
  let colon ← colonFrom entry
  let name ← keyName ((entry.take colon).dropWhile isSpace)
  return (name, entry.drop (colon + 1))

/-- The entries up to the brace that closes an object literal, and the text behind that. -/
def readEntries (text : List Char) : Option (List (String × List Char) × List Char) := do
  let n ← operandFrom 0 text
  let entry ← readEntry (text.take n)
  match _ended : text.drop n with
  | ',' :: later =>
    let (entries, left) ← readEntries later
    return (entry :: entries, left)
  | '}' :: left => return ([entry], left)
  | _ => none
  termination_by text.length
  decreasing_by
    have size := congrArg List.length _ended
    simp only [List.length_drop, List.length_cons] at size
    omega

/-- The entries of the object literal that the text begins with, and the text behind it. -/
def readObject : List Char → Option (List (String × List Char) × List Char)
  | '{' :: '}' :: left => some ([], left)
  | '{' :: text => readEntries text
  | _ => none

def readProps (text : List Char) : Option SlotProps :=
  match readObject (text.dropWhile isSpace) with
  | some (entries, []) => some (entries.map fun (name, value) => (name, String.ofList value))
  | _ => none

def readSlot (entry : String × List Char) : Option (String × SlotProps) :=
  (readProps entry.2).map fun props => (entry.1, props)

/-- The slots that an object literal of object literals spells. -/
def readSlots (text : List Char) : Option Slots :=
  match readObject text with
  | some (entries, []) => entries.mapM readSlot
  | _ => none

variable {name : String} {text rest value blank later left : List Char}

/-- A character is written as itself or behind a backslash. -/
theorem quotedChar_cases (c : Char) :
    quotedChar c = ['\\', c] ∧ c ≠ 'n' ∨ quotedChar c = ['\\', 'n'] ∧ c = '\n' ∨
      quotedChar c = [c] ∧ c ≠ '\\' ∧ c ≠ '"' ∧ c ≠ '\n' := by
  unfold quotedChar
  split
  · exact .inl ⟨rfl, by decide⟩
  · exact .inl ⟨rfl, by decide⟩
  · exact .inr (.inl ⟨rfl, rfl⟩)
  · rename_i notBackslash notQuote notNewline
    exact .inr (.inr ⟨rfl, notBackslash, notQuote, notNewline⟩)

private theorem unquote_quoted (text : List Char) :
    unquote (text.flatMap quotedChar ++ ['"']) = some text := by
  induction text with
  | nil => rfl
  | cons c text ih =>
    rw [List.flatMap_cons, List.append_assoc]
    rcases quotedChar_cases c with ⟨written, notLetter⟩ | ⟨written, rfl⟩ |
      ⟨written, notBackslash, notQuote, _⟩
    · rw [written, List.cons_append, List.singleton_append, unquote, ih]
      · rfl
      · exact fun letter => absurd letter notLetter
    · rw [written, List.cons_append, List.singleton_append, unquote, ih]
      rfl
    · rw [written, List.singleton_append, unquote, ih]
      · rfl
      · exact fun quote => absurd quote notQuote
      · exact fun _ backslash => absurd backslash notBackslash
      · exact fun _ _ backslash => absurd backslash notBackslash

/-- A text in double quotes is one string. -/
theorem quotedReach_quoted (text : List Char) :
    quotedReach '"' (text.flatMap quotedChar ++ '"' :: rest) =
      ⟨(text.flatMap quotedChar).length + 1, true⟩ := by
  induction text with
  | nil => cases rest <;> rfl
  | cons c text ih =>
    rw [List.flatMap_cons, List.append_assoc]
    obtain ⟨d, tail, behind⟩ : ∃ d tail, text.flatMap quotedChar ++ '"' :: rest = d :: tail :=
      List.exists_cons_of_ne_nil (by simp)
    rcases quotedChar_cases c with ⟨written, _⟩ | ⟨written, rfl⟩ |
      ⟨written, notBackslash, notQuote, notNewline⟩
    · simp [written, quotedReach, ih, Reach.add]
    · simp [written, quotedReach, ih, Reach.add]
    · rw [behind] at ih
      simp [written, behind, quotedReach, ih, Reach.add, notBackslash, notQuote, notNewline]

/-- A key is a word or a string in double quotes. -/
theorem objectKey_cases (name : String) :
    (∃ c cs, (objectKey name).toList = c :: cs ∧ name.toList = c :: cs ∧ isIdentStart c = true ∧
      ∀ d ∈ cs, isIdentChar d = true) ∨
    (objectKey name).toList = '"' :: (name.toList.flatMap quotedChar ++ ['"']) := by
  unfold objectKey
  split
  · rename_i plain
    unfold isPlainName at plain
    split at plain
    · cases plain
    · rename_i c cs chars
      obtain ⟨start, others⟩ := (Bool.and_eq_true_iff ..).1 plain
      exact .inl ⟨c, cs, chars, chars, start, List.all_eq_true.1 others⟩
  · exact .inr (String.toList_ofList ..)

/-- A key is one piece, which is no bracket, comma or colon. -/
theorem exists_key_piece (name : String) :
    ∃ c cs kind, (objectKey name).toList = c :: cs ∧
      (∀ rest, lexeme c (cs ++ ':' :: rest) = (some kind, cs.length)) ∧
      (∀ depth, depthAfter (some kind) depth = some depth) ∧ c ≠ ':' ∧ c ≠ '}' ∧
      isSpace c = false := by
  rcases objectKey_cases name with ⟨c, cs, key, _, start, others⟩ | key
  · have read (rest : List Char) : lexeme c (cs ++ ':' :: rest) = (some .ident, cs.length) := by
      rw [lexeme_word start, takeWhile_until others (endsRun_cons (by decide))]
    refine ⟨c, cs, .ident, key, read, fun _ => rfl, ?_, ?_,
      isSpace_of_isIdentChar (isIdentChar_of_isIdentStart start)⟩
    · rintro rfl
      cases start
    · rintro rfl
      cases start
  · refine ⟨'"', _, .string, key, fun rest => ?_, fun _ => rfl, by decide, by decide, rfl⟩
    rw [lexeme_quote (.inl rfl), List.append_assoc, List.singleton_append, quotedReach_quoted,
      List.length_append]
    rfl

private theorem keyName_objectKey (name : String) : keyName (objectKey name).toList = some name := by
  rcases objectKey_cases name with ⟨c, cs, key, chars, start, _⟩ | key
  · have notQuote : c ≠ '"' := by
      rintro rfl
      cases start
    rw [key, keyName, ← chars, String.ofList_toList]
    exact fun _ quote => absurd (List.cons.inj quote).1 notQuote
  · rw [key, keyName, unquote_quoted]
    exact congrArg some (String.ofList_toList ..)

def IsGap (blank : List Char) : Prop := blank = [] ∨ blank = [' ']

private theorem operandFrom_entry (gap : IsGap blank) (depth : Nat) :
    operandFrom depth (blank ++ ((objectKey name).toList ++ ':' :: rest)) =
      (operandFrom depth rest).map (· + (blank.length + (objectKey name).toList.length + 1)) := by
  obtain ⟨c, cs, kind, key, read, neutral, _⟩ := exists_key_piece name
  have colon : operandFrom depth (':' :: rest) = (operandFrom depth rest).map (· + 1) :=
    operandFrom_mark (some .punct) rfl rfl
  have word : operandFrom depth (c :: cs ++ ':' :: rest) =
      (operandFrom depth (':' :: rest)).map (· + (cs.length + 1)) :=
    operandFrom_piece (read rest) (neutral depth)
  rw [key]
  rcases gap with rfl | rfl
  · rw [List.nil_append, word, colon, Option.map_map]
    congr 1
    funext m
    simp only [Function.comp, List.length_cons, List.length_nil]
    omega
  · have space : operandFrom depth (' ' :: (c :: cs ++ ':' :: rest)) =
        (operandFrom depth (c :: cs ++ ':' :: rest)).map (· + 1) :=
      operandFrom_mark none rfl rfl
    rw [List.singleton_append, space, word, colon, Option.map_map, Option.map_map]
    congr 1
    funext m
    simp only [Function.comp, List.length_cons, List.length_nil]
    omega

private theorem colonFrom_entry (gap : IsGap blank) :
    colonFrom (blank ++ ((objectKey name).toList ++ ':' :: rest)) =
      some (blank.length + (objectKey name).toList.length) := by
  obtain ⟨c, cs, kind, key, read, _, notColon, _⟩ := exists_key_piece name
  have word : colonFrom (c :: (cs ++ ':' :: rest)) = some (cs.length + 1) := by
    rw [colonFrom, if_neg (by simpa using notColon), read, List.drop_left, colonFrom]
    simp
  rw [key]
  rcases gap with rfl | rfl
  · rw [List.nil_append, List.cons_append, word]
    simp
  · have space : lexeme ' ' (c :: (cs ++ ':' :: rest)) = (none, 0) := rfl
    rw [List.singleton_append, List.cons_append, colonFrom, if_neg (by decide), space,
      List.drop_zero, word]
    simp
    omega

private theorem readEntry_entry (gap : IsGap blank) :
    readEntry (blank ++ ((objectKey name).toList ++ ':' :: value)) = some (name, value) := by
  have trimmed : (blank ++ (objectKey name).toList).dropWhile isSpace = (objectKey name).toList := by
    obtain ⟨c, cs, kind, key, _, _, _, _, notSpace⟩ := exists_key_piece name
    rw [key]
    rcases gap with rfl | rfl
    · simp [notSpace]
    · simp [notSpace, show isSpace ' ' = true from rfl]
  have whole : blank ++ ((objectKey name).toList ++ ':' :: value) =
      (blank ++ (objectKey name).toList) ++ ':' :: value := (List.append_assoc ..).symm
  unfold readEntry
  rw [colonFrom_entry gap, whole, ← List.length_append]
  simp only [bind, Option.bind, List.take_left, trimmed, keyName_objectKey, pure]
  rw [List.drop_append, List.drop_eq_nil_of_le (Nat.le_succ _)]
  simp

def readClosing : List Char → Option (List (String × List Char) × List Char)
  | ',' :: later => readEntries later
  | '}' :: left => some ([], left)
  | _ => none

private theorem readEntries_eq (text : List Char) :
    readEntries text = (operandFrom 0 text).bind fun n => (readEntry (text.take n)).bind fun entry =>
      (readClosing (text.drop n)).map fun (entries, left) => (entry :: entries, left) := by
  rw [readEntries]
  refine congrArg _ (funext fun n => congrArg _ (funext fun entry => ?_))
  unfold readClosing
  split
  · rename_i later ended
    rw [ended]
    exact (Option.map_eq_bind ..).symm
  · rename_i left ended
    rw [ended]
    rfl
  · rename_i notComma notBrace
    split
    · exact (notComma _ ‹_›).elim
    · exact (notBrace _ ‹_›).elim
    · rfl

/-- Entries are read one by one, each up to the end of the operand behind its key. -/
theorem readEntries_entry (gap : IsGap blank) :
    readEntries (blank ++ ((objectKey name).toList ++ ':' :: rest)) =
      (operandFrom 0 rest).bind fun m =>
        (readClosing (rest.drop m)).map fun (entries, left) =>
          ((name, rest.take m) :: entries, left) := by
  have whole : blank ++ ((objectKey name).toList ++ ':' :: rest) =
      (blank ++ (objectKey name).toList ++ [':']) ++ rest := by simp
  rw [readEntries_eq, operandFrom_entry gap]
  cases operandFrom 0 rest with
  | none => rfl
  | some m =>
    have size : m + (blank.length + (objectKey name).toList.length + 1) =
        (blank ++ (objectKey name).toList ++ [':']).length + m := by
      simp only [List.length_append, List.length_singleton]
      omega
    have entry : readEntry ((blank ++ ((objectKey name).toList ++ ':' :: rest)).take
        ((blank ++ (objectKey name).toList ++ [':']).length + m)) = some (name, rest.take m) := by
      rw [whole, List.take_length_add_append, ← readEntry_entry gap]
      simp
    simp only [Option.map_some, Option.bind_some, size, entry]
    rw [whole, List.drop_length_add_append]

def entryText (entry : String × List Char) : List Char :=
  (objectKey entry.1).toList ++ ':' :: entry.2

/-- What is written behind an entry: the others and the closing brace. -/
def closingText : List (String × List Char) → List Char
  | [] => ['}']
  | entry :: entries => ',' :: ' ' :: (entryText entry ++ closingText entries)

def objectText : List (String × List Char) → List Char
  | [] => ['{', '}']
  | entry :: entries => '{' :: (entryText entry ++ closingText entries)

variable {entry : String × List Char} {entries : List (String × List Char)}

private theorem exists_stop (entries : List (String × List Char)) (later : List Char) :
    ∃ d tail, closingText entries ++ later = d :: tail ∧ isStop d = true := by
  cases entries with
  | nil => exact ⟨'}', later, rfl, rfl⟩
  | cons entry entries => exact ⟨',', _, rfl, rfl⟩

/-- A value that is read as it was written is an operand. -/
theorem isOperand_of_take {m : Nat}
    (found : operandFrom 0 (value ++ (closingText entries ++ later)) = some m)
    (same : (value ++ (closingText entries ++ later)).take m = value) :
    isOperand value = true ∧
      (value ++ (closingText entries ++ later)).drop m = closingText entries ++ later := by
  have inside := lt_length_of_operandFrom found
  have size : m = value.length := by
    have := congrArg List.length same
    rw [List.length_take] at this
    omega
  obtain ⟨d, tail, ahead, stop⟩ := exists_stop entries later
  subst size
  refine ⟨?_, List.drop_left⟩
  rw [ahead] at found
  exact (operandFrom_eq_length_iff stop).1 found

/-- An entry is read as it was written exactly if its value is an operand. -/
theorem readEntries_written_iff {read : List (String × List Char)} (gap : IsGap blank) :
    readEntries (blank ++ (entryText entry ++ (closingText entries ++ later))) =
        some (entry :: read, left) ↔
      isOperand entry.2 = true ∧ readClosing (closingText entries ++ later) = some (read, left) := by
  obtain ⟨d, tail, ahead, stop⟩ := exists_stop entries later
  rw [entryText, List.append_assoc, List.cons_append, readEntries_entry gap]
  constructor
  · intro whole
    obtain ⟨m, found, whole⟩ := Option.bind_eq_some_iff.1 whole
    obtain ⟨⟨others, behind⟩, closed, same⟩ := Option.map_eq_some_iff.1 whole
    injection same with sameEntries sameLeft
    injection sameEntries with first sameOthers
    subst sameLeft sameOthers
    obtain ⟨operand, dropped⟩ := isOperand_of_take found (congrArg Prod.snd first)
    rw [dropped] at closed
    exact ⟨operand, closed⟩
  · rintro ⟨operand, closed⟩
    rw [ahead] at closed ⊢
    rw [operandFrom_operand operand stop, Option.bind_some, List.drop_left, List.take_left, closed]
    rfl

private theorem readClosing_written_iff :
    readClosing (closingText entries ++ later) = some (entries, left) ↔
      (∀ e ∈ entries, isOperand e.2 = true) ∧ left = later := by
  induction entries with
  | nil =>
    constructor
    · rintro ⟨⟩
      exact ⟨nofun, rfl⟩
    · rintro ⟨_, rfl⟩
      rfl
  | cons entry entries ih =>
    have whole : closingText (entry :: entries) ++ later =
        ',' :: ([' '] ++ (entryText entry ++ (closingText entries ++ later))) := by
      simp [closingText]
    rw [whole, readClosing, readEntries_written_iff (.inr rfl), ih, List.forall_mem_cons, and_assoc]

private theorem readObject_cons :
    readObject (objectText (entry :: entries) ++ later) =
      readEntries ([] ++ (entryText entry ++ (closingText entries ++ later))) := by
  obtain ⟨c, cs, _, key, _, _, _, notBrace, _⟩ := exists_key_piece entry.1
  simp only [objectText, entryText, key, List.cons_append, List.append_assoc, List.nil_append]
  rw [readObject]
  exact fun left closed => notBrace (List.cons.inj closed).1

/-- An object literal is read as it was written exactly if its values are operands. -/
theorem readObject_written_iff :
    readObject (objectText entries ++ later) = some (entries, left) ↔
      (∀ e ∈ entries, isOperand e.2 = true) ∧ left = later := by
  cases entries with
  | nil =>
    constructor
    · rintro ⟨⟩
      exact ⟨nofun, rfl⟩
    · rintro ⟨_, rfl⟩
      rfl
  | cons entry entries =>
    rw [readObject_cons, readEntries_written_iff (.inl rfl), readClosing_written_iff, List.forall_mem_cons,
      and_assoc]

/-- What is read of a text is read of it with more behind it. -/
theorem readEntries_append (read : readEntries text = some (entries, left)) :
    readEntries (text ++ later) = some (entries, left ++ later) := by
  -- the induction is on the length, since an entry is read at once
  induction len : text.length using Nat.strongRecOn generalizing text entries with
  | ind size ih =>
    rw [readEntries_eq] at read ⊢
    obtain ⟨n, found, read⟩ := Option.bind_eq_some_iff.1 read
    obtain ⟨entry, first, read⟩ := Option.bind_eq_some_iff.1 read
    obtain ⟨⟨others, behind⟩, closed, same⟩ := Option.map_eq_some_iff.1 read
    injection same with sameEntries sameLeft
    subst sameEntries sameLeft
    have inside := lt_length_of_operandFrom found
    have closedLater : readClosing (text.drop n ++ later) = some (others, behind ++ later) := by
      unfold readClosing at closed
      split at closed
      · rename_i rest ended
        have sizes := congrArg List.length ended
        rw [List.length_drop, List.length_cons] at sizes
        rw [ended]
        exact ih rest.length (by omega) closed rfl
      · rename_i rest ended
        cases closed
        rw [ended]
        rfl
      · cases closed
    rw [operandFrom_append found, Option.bind_some, List.take_append_of_le_length inside.le, first,
      Option.bind_some, List.drop_append_of_le_length inside.le, closedLater]
    rfl

private theorem readObject_append (read : readObject text = some (entries, left)) :
    readObject (text ++ later) = some (entries, left ++ later) := by
  unfold readObject at read
  split at read
  · cases read
    rfl
  · rename_i rest notClosed
    have more := @readEntries_append _ later _ _ read
    cases rest with
    | nil =>
      rw [readEntries_eq, operandFrom] at read
      cases read
    | cons c rest =>
      change readObject ('{' :: c :: (rest ++ later)) = _
      rw [readObject]
      · exact more
      · intro behind same
        exact notClosed rest (by rw [(List.cons.inj same).1])
  · cases read

/-- An entry is passed over, if its value is an operand. -/
theorem operandFrom_entryText (gap : IsGap blank) {depth : Nat}
    (operand : isOperand entry.2 = true) :
    operandFrom depth (blank ++ (entryText entry ++ (closingText entries ++ later))) =
      (operandFrom depth (closingText entries ++ later)).map
        (· + (blank ++ entryText entry).length) := by
  obtain ⟨d, tail, ahead, stop⟩ := exists_stop entries later
  have passed : operandFrom (0 + depth) (entry.2 ++ d :: tail) = _ :=
    operandFrom_append_operand operand stop
  rw [Nat.zero_add, ← ahead] at passed
  rw [entryText, List.append_assoc, List.cons_append, operandFrom_entry gap, passed,
    Option.map_map]
  congr 1
  funext m
  simp only [Function.comp, List.length_append, List.length_cons]
  omega

private theorem operandFrom_closingText {depth : Nat} (operands : ∀ e ∈ entries, isOperand e.2 = true) :
    operandFrom (depth + 1) (closingText entries ++ later) =
      (operandFrom depth later).map (· + (closingText entries).length) := by
  induction entries with
  | nil => exact operandFrom_mark (some (.closing .brace)) rfl rfl
  | cons entry entries ih =>
    obtain ⟨operand, others⟩ := List.forall_mem_cons.1 operands
    have comma (rest : List Char) : operandFrom (depth + 1) (',' :: rest) =
        (operandFrom (depth + 1) rest).map (· + 1) :=
      operandFrom_mark (some .comma) rfl rfl
    have whole : closingText (entry :: entries) ++ later =
        ',' :: ([' '] ++ (entryText entry ++ (closingText entries ++ later))) := by
      simp [closingText]
    rw [whole, comma, operandFrom_entryText (.inr rfl) operand, ih others, Option.map_map,
      Option.map_map]
    congr 1
    funext m
    simp only [Function.comp, closingText, List.length_cons, List.length_append, List.length_nil]
    omega

/-- A written object literal is an operand, if its values are operands. -/
theorem isOperand_objectText (operands : ∀ e ∈ entries, isOperand e.2 = true) :
    isOperand (' ' :: objectText entries) = true := by
  have space : operandFrom 0 (' ' :: (objectText entries ++ [','])) =
      (operandFrom 0 (objectText entries ++ [','])).map (· + 1) :=
    operandFrom_mark none rfl rfl
  have passed : operandFrom 0 (objectText entries ++ [',']) = some (objectText entries).length := by
    have comma : operandFrom 0 [','] = some 0 :=
      @operandFrom_operand _ [] _ (by rw [isOperand, isOperandFrom]; rfl) rfl
    cases entries with
    | nil => decide +kernel
    | cons entry entries =>
      obtain ⟨operand, others⟩ := List.forall_mem_cons.1 operands
      have brace (rest : List Char) : operandFrom 0 ('{' :: rest) =
          (operandFrom (0 + 1) rest).map (· + 1) :=
        operandFrom_mark (some (.opening .brace)) rfl rfl
      have whole : objectText (entry :: entries) ++ [','] =
          '{' :: ([] ++ (entryText entry ++ (closingText entries ++ [',']))) := by
        simp [objectText]
      rw [whole, brace, operandFrom_entryText (.inl rfl) operand, operandFrom_closingText others,
        comma]
      simp only [Option.map_some, objectText, List.length_cons, List.length_append, List.length_nil]
      congr 1
      omega
  rw [passed, Option.map_some] at space
  exact (operandFrom_eq_length_iff (d := ',') rfl).1 space

def propEntries (props : SlotProps) : List (String × List Char) :=
  props.map fun (name, value) => (name, value.toList)

def slotEntry (slot : String × SlotProps) : String × List Char :=
  (slot.1, ' ' :: objectText (propEntries slot.2))

private theorem intercalate_entryText (entry : String × List Char) (entries : List (String × List Char)) :
    [',', ' '].intercalate ((entry :: entries).map entryText) ++ ['}'] =
      entryText entry ++ closingText entries := by
  induction entries generalizing entry with
  | nil => simp [List.intercalate, closingText]
  | cons next entries ih =>
    rw [List.map_cons, List.map_cons, List.intercalate_cons_cons, ← List.map_cons,
      List.append_assoc, ih]
    simp [closingText]

private theorem toList_braced {texts : List String}
    (same : texts.map String.toList = entries.map entryText) :
    (braced texts).toList = objectText entries := by
  simp only [braced, String.toList_append, String.toList_intercalate, same]
  cases entries with
  | nil => rfl
  | cons entry entries =>
    exact congrArg ('{' :: ·) (intercalate_entryText entry entries)

private theorem toList_propsText (props : SlotProps) :
    (SlotProps.text props).toList = objectText (propEntries props) := by
  refine toList_braced ?_
  simp [propEntries, entryText]

private theorem toList_slotsText (slots : Slots) :
    (Slots.text slots).toList = objectText (slots.map slotEntry) := by
  refine toList_braced ?_
  simp [slotEntry, entryText, toList_propsText]

/-- The values of properties, as values of entries. -/
theorem forall_propEntries {props : SlotProps} :
    (∀ e ∈ propEntries props, isOperand e.2 = true) ↔
      ∀ prop ∈ props, isOperand prop.2.toList = true :=
  List.forall_mem_map

private theorem map_propEntries (props : SlotProps) :
    (propEntries props).map (fun (name, value) => (name, String.ofList value)) = props := by
  rw [propEntries, List.map_map]
  exact (List.map_congr_left fun prop _ => by simp [Function.comp]).trans (List.map_id' props)

private theorem eq_propEntries {props : SlotProps}
    (same : entries.map (fun (name, value) => (name, String.ofList value)) = props) :
    entries = propEntries props := by
  rw [← same, propEntries, List.map_map]
  exact ((List.map_congr_left fun entry _ => by simp [Function.comp]).trans
    (List.map_id' entries)).symm

private theorem readSlot_slotEntry {slot : String × SlotProps}
    (operands : ∀ prop ∈ slot.2, isOperand prop.2.toList = true) :
    readSlot (slotEntry slot) = some slot := by
  have read := (@readObject_written_iff [] [] _).2
    ⟨forall_propEntries.2 operands, rfl⟩
  rw [List.append_nil] at read
  have trimmed : (' ' :: objectText (propEntries slot.2)).dropWhile isSpace =
      objectText (propEntries slot.2) := by
    cases propEntries slot.2 <;> rfl
  simp only [readSlot, slotEntry, readProps, trimmed, read, map_propEntries, Option.map_some]

private theorem dropWhile_isSpace_take (props : SlotProps) (m : Nat) :
    ((objectText (propEntries props) ++ later).take m).dropWhile isSpace =
      (objectText (propEntries props) ++ later).take m := by
  cases m with
  | zero => rfl
  | succ m => cases propEntries props <;> rfl

/-- Properties that are read as they were written are read up to their end, and have operands for
their values. -/
theorem readProps_take {props : SlotProps} {m : Nat}
    (spelled : readProps ((' ' :: (objectText (propEntries props) ++ later)).take m) = some props) :
    (∀ prop ∈ props, isOperand prop.2.toList = true) ∧
      (' ' :: (objectText (propEntries props) ++ later)).drop m = later := by
  cases m with
  | zero => cases spelled
  | succ m =>
    have trimmed : ((' ' :: (objectText (propEntries props) ++ later)).take (m + 1)).dropWhile
        isSpace = (objectText (propEntries props) ++ later).take m :=
      dropWhile_isSpace_take props m
    rw [readProps, trimmed] at spelled
    split at spelled
    · rename_i entries read
      have same := eq_propEntries (Option.some.inj spelled)
      have whole := @readObject_append _ ((objectText (propEntries props) ++ later).drop m) _ _ read
      rw [List.take_append_drop, List.nil_append, same] at whole
      exact (readObject_written_iff.1 whole).imp_left forall_propEntries.1
    · cases spelled

/-- A slot that is read as it was written has operands for its values. -/
theorem readEntries_slot (gap : IsGap blank) {slot : String × SlotProps}
    {read : List (String × List Char)}
    (whole : readEntries (blank ++ (entryText (slotEntry slot) ++ (closingText entries ++ later))) =
      some (entry :: read, left))
    (spelled : readSlot entry = some slot) :
    (∀ prop ∈ slot.2, isOperand prop.2.toList = true) ∧
      readClosing (closingText entries ++ later) = some (read, left) := by
  rw [entryText, List.append_assoc, List.cons_append, readEntries_entry gap] at whole
  obtain ⟨m, _, whole⟩ := Option.bind_eq_some_iff.1 whole
  obtain ⟨⟨others, behind⟩, closed, same⟩ := Option.map_eq_some_iff.1 whole
  injection same with sameEntries sameLeft
  injection sameEntries with first sameOthers
  subst first sameLeft sameOthers
  obtain ⟨props, spelledProps, sameSlot⟩ := Option.map_eq_some_iff.1 spelled
  have sameProps : props = slot.2 := congrArg Prod.snd sameSlot
  subst sameProps
  obtain ⟨operands, behindProps⟩ := readProps_take spelledProps
  exact ⟨operands, behindProps ▸ closed⟩

private theorem readSlot_of_mapM {slot : String × SlotProps} {slots : Slots}
    {read : List (String × List Char)} (spelled : read.mapM readSlot = some (slot :: slots)) :
    ∃ entry others, read = entry :: others ∧ readSlot entry = some slot ∧
      others.mapM readSlot = some slots := by
  cases read with
  | nil => cases spelled
  | cons entry others =>
    rw [List.mapM_cons] at spelled
    obtain ⟨first, spelledFirst, spelled⟩ := Option.bind_eq_some_iff.1 spelled
    obtain ⟨rest, spelledRest, spelled⟩ := Option.bind_eq_some_iff.1 spelled
    cases spelled
    exact ⟨entry, others, rfl, spelledFirst, spelledRest⟩

/-- Slots that are read as they were written have operands for the values of their properties. -/
theorem isOperand_of_readEntries (gap : IsGap blank) {slot : String × SlotProps} {slots : Slots}
    {read : List (String × List Char)}
    (whole : readEntries (blank ++ (entryText (slotEntry slot) ++
      (closingText (slots.map slotEntry) ++ later))) = some (read, left))
    (spelled : read.mapM readSlot = some (slot :: slots)) :
    ∀ s ∈ slot :: slots, ∀ prop ∈ s.2, isOperand prop.2.toList = true := by
  induction slots generalizing slot read blank with
  | nil =>
    obtain ⟨entry, others, rfl, spelledSlot, _⟩ := readSlot_of_mapM spelled
    exact List.forall_mem_singleton.2 (readEntries_slot gap whole spelledSlot).1
  | cons next slots ih =>
    obtain ⟨entry, others, rfl, spelledSlot, spelledOthers⟩ := readSlot_of_mapM spelled
    obtain ⟨operands, closed⟩ := readEntries_slot gap whole spelledSlot
    have behind : closingText ((next :: slots).map slotEntry) ++ later =
        ',' :: ([' '] ++ (entryText (slotEntry next) ++
          (closingText (slots.map slotEntry) ++ later))) := by
      simp [closingText]
    rw [behind, readClosing] at closed
    exact List.forall_mem_cons.2 ⟨operands, ih (.inr rfl) closed spelledOthers⟩

private theorem mapM_readSlot {slots : Slots}
    (operands : ∀ slot ∈ slots, ∀ prop ∈ slot.2, isOperand prop.2.toList = true) :
    (slots.map slotEntry).mapM readSlot = some slots := by
  induction slots with
  | nil => rfl
  | cons slot slots ih =>
    obtain ⟨here, others⟩ := List.forall_mem_cons.1 operands
    rw [List.map_cons, List.mapM_cons, readSlot_slotEntry here, ih others]
    rfl

private theorem readSlots_text {slots : Slots}
    (operands : ∀ slot ∈ slots, ∀ prop ∈ slot.2, isOperand prop.2.toList = true) :
    readSlots slots.text.toList = some slots := by
  have values : ∀ e ∈ slots.map slotEntry, isOperand e.2 = true :=
    List.forall_mem_map.2 fun slot member =>
      isOperand_objectText (forall_propEntries.2 (operands slot member))
  have read := (@readObject_written_iff [] [] _).2 ⟨values, rfl⟩
  rw [List.append_nil] at read
  rw [toList_slotsText, readSlots, read]
  exact mapM_readSlot operands

/-- The text of slots spells the slots exactly if the value of each property is an operand. -/
theorem readSlots_text_iff (slots : Slots) :
    readSlots slots.text.toList = some slots ↔
      ∀ slot ∈ slots, ∀ prop ∈ slot.2, isOperand prop.2.toList = true := by
  refine ⟨fun spelled => ?_, readSlots_text⟩
  rw [toList_slotsText] at spelled
  cases slots with
  | nil => nofun
  | cons slot slots =>
    unfold readSlots at spelled
    split at spelled
    · rename_i read whole
      rw [← List.append_nil (objectText _), List.map_cons, readObject_cons] at whole
      exact isOperand_of_readEntries (.inl rfl) whole spelled
    · cases spelled

/-- The comma of this expression is read as the end of the property. -/
theorem slots_text_comma : ∃ t, transpile "<slot x=\x7ba, b\x7d />" = .ok t ∧
    readSlots t.slots.text.toList ≠ some t.slots := by
  have checked : (transpile "<slot x=\x7ba, b\x7d />").toOption.any (fun t =>
      readSlots t.slots.text.toList == none) = true := by
    decide +kernel
  obtain ⟨t, made, unread⟩ := exists_ok_of_check checked
  refine ⟨t, made, ?_⟩
  rw [eq_of_beq unread]
  nofun

/-- A quoted text is an operand, whatever it contains. -/
theorem isOperand_quoted (text : String) : isOperand (quoted text).toList = true := by
  have reach := @quotedReach_quoted [] text.toList
  have written : (quoted text).toList = '"' :: (text.toList.flatMap quotedChar ++ ['"']) :=
    String.toList_ofList ..
  have read : lexeme '"' (text.toList.flatMap quotedChar ++ ['"']) =
      (some .string, (text.toList.flatMap quotedChar ++ ['"']).length) := by
    rw [lexeme_quote (.inl rfl), reach, List.length_append]
    rfl
  have finished : unfinished '"' (text.toList.flatMap quotedChar ++ ['"']) = false := by
    simp [unfinished, reach]
  rw [written, isOperand, isOperandFrom, read, finished]
  simp only [depthAfter, List.drop_length, Bool.not_false, Bool.true_and]
  rw [isOperandFrom]
  rfl

/-- The value of an attribute without expressions is an operand, so only the expressions that a slot
exposes can change what its text spells. -/
theorem isOperand_attributeValue {a : PlainAttribute} {text : String}
    (static : a.staticValue? = some text) : isOperand (attributeValue a).toList = true := by
  unfold attributeValue
  split
  · decide +kernel
  · rename_i e single
    rw [PlainAttribute.staticValue?, single] at static
    cases static
  · rw [static]
    exact isOperand_quoted text

/-- Slots that expose only values without expressions are spelled by their text. -/
theorem readSlots_text_of_static {slots : Slots}
    (static : ∀ slot ∈ slots, ∀ prop ∈ slot.2,
      ∃ a text, PlainAttribute.staticValue? a = some text ∧ prop.2 = attributeValue a) :
    readSlots slots.text.toList = some slots := by
  refine readSlots_text fun slot member prop exposed => ?_
  obtain ⟨a, text, value, written⟩ := static slot member prop exposed
  rw [written]
  exact isOperand_attributeValue value

end TypedSvelte.Component
