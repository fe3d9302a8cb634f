import TypedSvelte.Proofs.Component.SlotReading
import TypedSvelte.Proofs.Markup.AttributeOrigins
import TypedSvelte.Proofs.Markup.AttributeValues
import TypedSvelte.Proofs.Markup.ClosingBraces
import TypedSvelte.Script.Reader

/-!
# What the values of slot properties denote

The value of an attribute is written as a string or as a template literal. Both are read here as a
script reads them, with its escapes and its line ends. A string gives its text back exactly if that
has no carriage return, which is written as it is and ends the line (`slot_values_denoted`). A template
literal gives the parts of the value back exactly if, besides, each expression ends only at the brace
that is written behind it.
-/
namespace TypedSvelte.Component

open Markup

/-- The text that characters between the delimiters of a literal stand for. -/
def decoded? (chars : List Char) : Option (List Char) :=
  (Script.unescape .none chars).bind Script.textOfUnits

/-- The text of a string in double quotes, if the characters are that and nothing else. -/
def stringValue? : List Char → Option (List Char)
  | '"' :: rest =>
    if Script.stringReach '"' rest = (rest.length, true) then decoded? rest.dropLast else none
  | _ => none

/-- The characters with each line end as a newline, as a template literal has them. -/
def withNewlines : List Char → List Char
  | [] => []
  | '\r' :: '\n' :: rest => '\n' :: withNewlines rest
  | '\r' :: rest => '\n' :: withNewlines rest
  | c :: rest => c :: withNewlines rest

/-- What a template literal is made of: its first text, and its substitutions, each with the text
behind it. -/
abbrev Chunks := List Char × List (List Char × List Char)

/-- What a template literal is made of, from behind its opening backquote. -/
def templateChunks (text : List Char) : Option Chunks :=
  let n := (Script.chunkReach text).1
  match _stop : (Script.chunkReach text).2 with
  | .unclosed => none
  | .closed =>
    if text.drop n = ['`'] then (decoded? (withNewlines (text.take n))).map (·, []) else none
  | .substitution => do
    let first ← decoded? (withNewlines (text.take n))
    let m ← closingBrace? (text.drop (n + 2))
    let (next, later) ← templateChunks (text.drop (n + 2 + (m + 1)))
    return (first, ((text.drop (n + 2)).take m, next) :: later)
  termination_by text.length
  decreasing_by
    cases text with
    | nil => cases _stop
    | cons c rest => rw [List.length_drop, List.length_cons]; omega

/-- What a template literal is made of, if the characters are that and nothing else. -/
def templateValue? : List Char → Option Chunks
  | '`' :: rest => templateChunks rest
  | _ => none

variable {text rest written : List Char} {c : Char}

/-- The characters stand for the text, whatever comes behind them. -/
def Spells (written text : List Char) : Prop :=
  ∀ rest, decoded? (written ++ rest) = (decoded? rest).map (text ++ ·)

private theorem textOfUnits_cons (c : Char) (units : List Nat) :
    Script.textOfUnits (c.toNat :: units) = (Script.textOfUnits units).map (c :: ·) := by
  have valid : c.toNat.isValidChar := c.valid
  cases units with
  | nil => simp [Script.textOfUnits, valid]
  | cons n others => simp [Script.textOfUnits, valid]

private theorem Spells.of_unescape (read : ∀ rest, Script.unescape .none (written ++ rest) =
    (Script.unescape .none rest).map (c.toNat :: ·)) : Spells written [c] := by
  intro rest
  rw [decoded?, decoded?, read, Option.bind_map, Option.map_bind]
  congr 1
  funext units
  exact textOfUnits_cons c units

theorem Spells.nil : Spells [] [] := fun rest => by simp

theorem Spells.append {more others : List Char} (first : Spells written text)
    (second : Spells more others) : Spells (written ++ more) (text ++ others) := by
  intro rest
  rw [List.append_assoc, first, second, Option.map_map]
  congr 1
  funext behind
  exact (List.append_assoc _ _ _).symm

/-- A character that is no backslash stands for itself. -/
theorem spells_char (plain : c ≠ '\\') : Spells [c] [c] := by
  refine .of_unescape fun rest => ?_
  rw [List.singleton_append]
  conv_lhs => unfold Script.unescape
  split
  · contradiction
  · rename_i others same
    obtain ⟨rfl, rfl⟩ := List.cons.inj same
    rw [Script.unescape, if_neg (by decide), Option.map_map]
    · rfl
    · exact fun _ first => absurd first (by decide)
  · rename_i d others _ same
    obtain ⟨rfl, rfl⟩ := List.cons.inj same
    exact if_neg (by simpa using plain)

private theorem spells_escaped (escaped : c = '\\' ∨ c = '"' ∨ c = '`' ∨ c = '$') :
    Spells ['\\', c] [c] := by
  refine .of_unescape fun rest => ?_
  rcases escaped with rfl | rfl | rfl | rfl <;> rfl

private theorem spells_newline : Spells ['\\', 'n'] ['\n'] := .of_unescape fun _ => rfl

theorem decoded?_of_spells (spells : Spells written text) : decoded? written = some text := by
  have alone := spells []
  rw [List.append_nil] at alone
  rw [alone]
  exact congrArg some (List.append_nil text)

private theorem spells_quotedChar (c : Char) : Spells (quotedChar c) [c] := by
  unfold quotedChar
  split
  · exact spells_escaped (.inl rfl)
  · exact spells_escaped (.inr (.inl rfl))
  · exact spells_newline
  · exact spells_char ‹_›

private theorem spells_quoted (text : List Char) : Spells (text.flatMap quotedChar) text := by
  induction text with
  | nil => exact .nil
  | cons c text ih => exact (spells_quotedChar c).append ih

/-- A character that is written as it is ends the line if it is a carriage return; any other one
belongs to the string. -/
theorem stringReach_quotedChar {rest : List Char} (more : rest ≠ []) (c : Char) :
    Script.stringReach '"' (quotedChar c ++ rest) =
      if c = '\r' then (0, false)
      else ((Script.stringReach '"' rest).1 + (quotedChar c).length,
        (Script.stringReach '"' rest).2) := by
  obtain ⟨d, others, rfl⟩ := List.exists_cons_of_ne_nil more
  unfold quotedChar
  split
  · rfl
  · rfl
  · rfl
  · rename_i notBackslash notQuote notNewline
    rw [List.singleton_append, Script.stringReach, if_neg (by simpa using notBackslash)]
    · by_cases isReturn : c = '\r'
      · rw [if_pos (by simp [isReturn]), if_pos isReturn]
      · rw [if_neg (by simpa [isReturn] using notNewline), if_neg (by simpa using notQuote),
          if_neg isReturn]
        rfl
    · exact fun _ first => absurd first notBackslash

/-- The text is read up to the closing quote, unless there is a carriage return in it. -/
theorem stringReach_quoted (text : List Char) :
    Script.stringReach '"' (text.flatMap quotedChar ++ ['"']) =
        ((text.flatMap quotedChar).length + 1, true) ∧ '\r' ∉ text ∨
      (Script.stringReach '"' (text.flatMap quotedChar ++ ['"'])).2 = false ∧ '\r' ∈ text := by
  induction text with
  | nil => exact .inl ⟨rfl, List.not_mem_nil⟩
  | cons c text ih =>
    rw [List.flatMap_cons, List.append_assoc, stringReach_quotedChar (by simp)]
    by_cases isReturn : c = '\r'
    · exact .inr ⟨by rw [if_pos isReturn], isReturn ▸ List.mem_cons_self⟩
    · rw [if_neg isReturn]
      rcases ih with ⟨closed, absent⟩ | ⟨cut, present⟩
      · refine .inl ⟨?_, ?_⟩
        · rw [closed, List.length_append]
          simp only [Prod.mk.injEq, and_true]
          omega
        · rw [List.mem_cons, not_or]
          exact ⟨Ne.symm isReturn, absent⟩
      · exact .inr ⟨cut, List.mem_cons_of_mem _ present⟩

theorem stringValue?_quoted_iff (text : String) :
    stringValue? (quoted text).toList = some text.toList ↔ '\r' ∉ text.toList := by
  rw [quoted, String.toList_ofList, List.cons_append, stringValue?]
  rcases stringReach_quoted text.toList with ⟨closed, absent⟩ | ⟨cut, present⟩
  · rw [closed, if_pos (by simp), List.dropLast_concat, decoded?_of_spells (spells_quoted _)]
    exact iff_of_true rfl absent
  · rw [if_neg (fun closed => by rw [closed] at cut; cases cut)]
    exact iff_of_false nofun (not_not_intro present)

private theorem mem_quotedChar {d : Char} (other : d ∉ ['n', '"', '\\']) (c : Char) :
    d ∈ quotedChar c ↔ c = d ∧ d ≠ '\n' := by
  simp only [List.mem_cons, List.not_mem_nil, or_false, not_or] at other
  obtain ⟨letter, mark, slash⟩ := other
  unfold quotedChar
  split
  · simp [slash, Ne.symm slash]
  · simp [mark, slash, Ne.symm mark]
  · simp [letter, slash, eq_comm]
  · rename_i notNewline
    rw [List.mem_singleton, eq_comm]
    exact ⟨fun same => ⟨same, same ▸ notNewline⟩, And.left⟩

/-- Of the line ends that no string may have, newlines are escaped and carriage returns are not. -/
theorem lineEnds_quoted (text : String) :
    '\n' ∉ (quoted text).toList ∧ ('\r' ∈ (quoted text).toList ↔ '\r' ∈ text.toList) := by
  have within {d : Char} (mark : d ≠ '"') :
      d ∈ (quoted text).toList ↔ ∃ c ∈ text.toList, d ∈ quotedChar c := by
    rw [quoted, String.toList_ofList, List.mem_append, List.mem_cons, List.mem_flatMap]
    simp [mark]
  constructor
  · rw [within (by decide)]
    rintro ⟨c, _, raw⟩
    exact ((mem_quotedChar (by decide) c).1 raw).2 rfl
  · rw [within (by decide)]
    constructor
    · rintro ⟨c, inText, raw⟩
      exact ((mem_quotedChar (by decide) c).1 raw).1 ▸ inText
    · exact fun inText => ⟨'\r', inText, (mem_quotedChar (by decide) _).2 ⟨rfl, by decide⟩⟩

/-- A backslash is written before the character of the text. -/
def isEscaped (c : Char) (rest : List Char) : Bool :=
  c == '\\' || c == '`' || (c == '$' && rest.head? == some '{')

private theorem templateText_cons (c : Char) (rest : List Char) : templateText (c :: rest) =
    (if isEscaped c rest then ['\\', c] else [c]) ++ templateText rest := by
  rw [templateText, isEscaped]
  split <;> rfl

private theorem spells_templateText (text : List Char) : Spells (templateText text) text := by
  induction text with
  | nil => exact .nil
  | cons c rest ih =>
    rw [templateText_cons]
    split
    · rename_i escaped
      have mark : c = '\\' ∨ c = '"' ∨ c = '`' ∨ c = '$' := by
        simp only [isEscaped, Bool.or_eq_true, Bool.and_eq_true, beq_iff_eq] at escaped
        grind
      exact (spells_escaped mark).append ih
    · rename_i plain
      have notSlash : c ≠ '\\' := by
        rintro rfl
        exact plain rfl
      exact (spells_char notSlash).append ih

/-- What is behind the text does not make a dollar sign at its end the beginning of a substitution. -/
def StaysApart (text rest : List Char) : Prop :=
  ¬(text.getLast? = some '$' ∧ rest.head? = some '{')

theorem StaysApart.tail (apart : StaysApart (c :: text) rest) : StaysApart text rest := by
  rintro ⟨last, brace⟩
  refine apart ⟨?_, brace⟩
  rw [List.getLast?_cons, last]
  rfl

/-- Whether a character is escaped is decided within the text. -/
theorem StaysApart.isEscaped (apart : StaysApart (c :: text) rest) :
    isEscaped c (text ++ rest) = isEscaped c text := by
  cases text with
  | nil =>
    have lone : ¬(c = '$' ∧ rest.head? = some '{') := fun ⟨last, brace⟩ =>
      apart ⟨congrArg some last, brace⟩
    simp only [Component.isEscaped, List.nil_append, List.head?_nil]
    grind
  | cons d text => rfl

private theorem templateText_append (apart : StaysApart text rest) :
    templateText (text ++ rest) = templateText text ++ templateText rest := by
  induction text with
  | nil => rfl
  | cons c text ih =>
    rw [List.cons_append, templateText_cons, templateText_cons, apart.isEscaped, ih apart.tail,
      List.append_assoc]

/-- The text begins with a brace as it is written exactly if it does so itself. -/
theorem head?_templateText_append (text rest : List Char) :
    (templateText text ++ rest).head? = some '{' ↔ (text ++ rest).head? = some '{' := by
  cases text with
  | nil => rfl
  | cons c text =>
    rw [templateText_cons]
    split
    · rename_i escaped
      refine iff_of_false (by simp) fun brace => ?_
      cases Option.some.inj brace
      cases escaped
    · rfl

private theorem mem_templateText {d : Char} (other : d ≠ '\\') : d ∈ templateText text ↔ d ∈ text := by
  induction text with
  | nil => exact Iff.rfl
  | cons c rest ih =>
    rw [templateText_cons, List.mem_append, ih]
    split <;> simp [other]

/-- Line ends are told from what is behind them only by a carriage return. -/
theorem withNewlines_append (clean : '\r' ∉ text) :
    withNewlines (text ++ rest) = text ++ withNewlines rest := by
  induction text with
  | nil => rfl
  | cons c text ih =>
    rw [List.mem_cons, not_or] at clean
    rw [List.cons_append, withNewlines, ih clean.2]
    · rfl
    · exact fun _ first => absurd first.symm clean.1
    · exact fun first => absurd first.symm clean.1

private theorem chunkReach_cons (mark : c ≠ '`') (slash : c ≠ '\\')
    (apart : ¬(c = '$' ∧ rest.head? = some '{')) : Script.chunkReach (c :: rest) =
      ((Script.chunkReach rest).1 + 1, (Script.chunkReach rest).2) := by
  cases rest with
  | nil => exact if_neg (by simpa using mark)
  | cons d rest =>
    rw [Script.chunkReach, if_neg (by simpa using mark), if_neg (by simpa using apart),
      if_neg (by simpa using slash)]

/-- A text of a template is passed as a whole. -/
theorem chunkReach_templateText (apart : StaysApart text rest) :
    Script.chunkReach (templateText text ++ rest) =
      ((templateText text).length + (Script.chunkReach rest).1, (Script.chunkReach rest).2) := by
  induction text with
  | nil => simp [templateText]
  | cons c text ih =>
    have lone (plain : isEscaped c (text ++ rest) = false) :
        ¬(c = '$' ∧ (templateText text ++ rest).head? = some '{') := by
      rintro ⟨rfl, brace⟩
      rw [isEscaped, (head?_templateText_append text rest).1 brace] at plain
      cases plain
    rw [templateText_cons, ← apart.isEscaped, List.append_assoc, List.length_append]
    cases escaped : isEscaped c (text ++ rest) with
    | true =>
      have read : Script.chunkReach ('\\' :: c :: (templateText text ++ rest)) =
          ((Script.chunkReach (templateText text ++ rest)).1 + 2,
            (Script.chunkReach (templateText text ++ rest)).2) := rfl
      rw [if_pos rfl]
      refine read.trans ?_
      rw [ih apart.tail]
      simp only [List.length_cons, List.length_nil, Prod.mk.injEq, and_true]
      omega
    | false =>
      have plain := escaped
      simp only [isEscaped, Bool.or_eq_false_iff, beq_eq_false_iff_ne] at plain
      rw [if_neg Bool.false_ne_true, List.singleton_append,
        chunkReach_cons plain.1.2 plain.1.1 (lone escaped), ih apart.tail]
      simp only [List.length_singleton, Prod.mk.injEq, and_true]
      omega

section

variable {n m : Nat} {chunks : Chunks} {e : List Char}

private theorem templateChunks_closed (reach : Script.chunkReach text = (n, .closed)) :
    templateChunks text = if text.drop n = ['`'] then
      (decoded? (withNewlines (text.take n))).map (·, []) else none := by
  unfold templateChunks
  split
  · simp_all
  · simp only [reach]
  · simp_all

private theorem templateChunks_substitution (reach : Script.chunkReach text = (n, .substitution)) :
    templateChunks text = (decoded? (withNewlines (text.take n))).bind fun first =>
      (closingBrace? (text.drop (n + 2))).bind fun m =>
        (templateChunks (text.drop (n + 2 + (m + 1)))).map fun chunks =>
          (first, ((text.drop (n + 2)).take m, chunks.1) :: chunks.2) := by
  conv_lhs => unfold templateChunks
  split
  · simp_all
  · simp_all
  · simp only [reach, Option.map_eq_bind]
    rfl

private theorem templateChunks_unclosed (reach : Script.chunkReach text = (n, .unclosed)) :
    templateChunks text = none := by
  unfold templateChunks
  split <;> simp_all

/-- A text without carriage returns is the beginning of the first text that is read. -/
theorem templateChunks_text (clean : '\r' ∉ text) (apart : StaysApart text rest) :
    templateChunks (templateText text ++ rest) =
      (templateChunks rest).map fun chunks => (text ++ chunks.1, chunks.2) := by
  have reach := chunkReach_templateText apart
  have first (n : Nat) : decoded? (withNewlines (templateText text ++ rest.take n)) =
      (decoded? (withNewlines (rest.take n))).map (text ++ ·) := by
    rw [withNewlines_append (fun raw => clean ((mem_templateText (by decide)).1 raw)),
      spells_templateText]
  cases ahead : Script.chunkReach rest with
  | mk n stop =>
    rw [ahead] at reach
    cases stop with
    | unclosed => rw [templateChunks_unclosed reach, templateChunks_unclosed ahead]; rfl
    | closed =>
      rw [templateChunks_closed reach, templateChunks_closed ahead, List.take_length_add_append,
        List.drop_length_add_append, first]
      split
      · rw [Option.map_map, Option.map_map]
        rfl
      · rfl
    | substitution =>
      rw [templateChunks_substitution reach, templateChunks_substitution ahead,
        List.take_length_add_append, first]
      simp only [Nat.add_assoc, List.drop_length_add_append, Option.bind_map, Option.map_bind,
        Option.map_map, Function.comp_def]

/-- The first text of a template is what it has before its first substitution or its end. -/
theorem first_of_templateChunks (read : templateChunks text = some chunks) :
    decoded? (withNewlines (text.take (Script.chunkReach text).1)) = some chunks.1 := by
  cases reach : Script.chunkReach text with
  | mk n stop =>
    cases stop with
    | unclosed =>
      rw [templateChunks_unclosed reach] at read
      cases read
    | closed =>
      rw [templateChunks_closed reach] at read
      split at read
      · obtain ⟨first, decoded, rfl⟩ := Option.map_eq_some_iff.1 read
        exact decoded
      · cases read
    | substitution =>
      rw [templateChunks_substitution reach] at read
      obtain ⟨first, decoded, more⟩ := Option.bind_eq_some_iff.1 read
      obtain ⟨m, _, behind⟩ := Option.bind_eq_some_iff.1 more
      obtain ⟨_, _, rfl⟩ := Option.map_eq_some_iff.1 behind
      exact decoded

private theorem withNewlines_return (rest : List Char) :
    ∃ others, withNewlines ('\r' :: rest) = '\n' :: others := by
  unfold withNewlines
  split
  · contradiction
  · exact ⟨_, rfl⟩
  · exact ⟨_, rfl⟩
  · rename_i other same
    exact absurd (List.cons.inj same).1.symm other

/-- A carriage return is read as a newline. -/
theorem head?_templateChunks_return (read : templateChunks ('\r' :: rest) = some chunks) :
    chunks.1.head? = some '\n' := by
  have first := first_of_templateChunks read
  obtain ⟨others, same⟩ := withNewlines_return (rest.take (Script.chunkReach rest).1)
  rw [chunkReach_cons (by decide) (by decide) (by simp), List.take_succ_cons, same,
    ← List.singleton_append, spells_char (by decide)] at first
  obtain ⟨behind, _, begun⟩ := Option.map_eq_some_iff.1 first
  rw [← begun]
  rfl

/-- A substitution has no text before it. -/
theorem templateChunks_begun (rest : List Char) : templateChunks ('$' :: '{' :: rest) =
    (closingBrace? rest).bind fun m => (templateChunks (rest.drop (m + 1))).map fun chunks =>
      ([], (rest.take m, chunks.1) :: chunks.2) := by
  have reach : Script.chunkReach ('$' :: '{' :: rest) = (0, .substitution) := rfl
  have behind (m : Nat) : ('$' :: '{' :: rest).drop (2 + (m + 1)) = rest.drop (m + 1) := by
    rw [← List.drop_drop]
    rfl
  rw [templateChunks_substitution reach]
  simp only [Nat.zero_add, behind]
  rfl

/-- A text of a template is given back exactly if it has no carriage return and what is behind it does
not go on with a dollar sign at its end. -/
theorem templateChunks_text_iff :
    templateChunks (templateText text ++ rest) = some (text ++ chunks.1, chunks.2) ↔
      '\r' ∉ text ∧ StaysApart text rest ∧ templateChunks rest = some chunks := by
  constructor
  · intro read
    have clean : '\r' ∉ text := by
      intro present
      obtain ⟨before, behind, rfl, clean⟩ := List.eq_append_cons_of_mem present
      have returned (more : List Char) : StaysApart before ('\r' :: more) := by simp [StaysApart]
      have written : templateText ('\r' :: behind) = '\r' :: templateText behind := rfl
      rw [templateText_append (returned _), written, List.append_assoc,
        List.cons_append, templateChunks_text clean (returned _)] at read
      obtain ⟨found, inner, same⟩ := Option.map_eq_some_iff.1 read
      have first := congrArg Prod.fst same
      rw [List.append_assoc] at first
      have newline := head?_templateChunks_return inner
      rw [List.append_cancel_left first] at newline
      cases newline
    have apart : StaysApart text rest := by
      rintro ⟨last, brace⟩
      obtain ⟨before, rfl⟩ := List.getLast?_eq_some_iff.1 last
      obtain ⟨others, rfl⟩ := List.head?_eq_some_iff.1 brace
      have lone (more : List Char) : StaysApart before ('$' :: more) := by simp [StaysApart]
      have written : templateText ['$'] = ['$'] := rfl
      rw [templateText_append (lone _), written, List.append_assoc, List.singleton_append,
        templateChunks_text (fun raw => clean (List.mem_append_left _ raw)) (lone _),
        templateChunks_begun] at read
      obtain ⟨found, inner, same⟩ := Option.map_eq_some_iff.1 read
      obtain ⟨m, _, more⟩ := Option.bind_eq_some_iff.1 inner
      obtain ⟨_, _, rfl⟩ := Option.map_eq_some_iff.1 more
      have first := congrArg (fun chunks : Chunks => chunks.1.length) same
      simp at first
    refine ⟨clean, apart, ?_⟩
    rw [templateChunks_text clean apart] at read
    obtain ⟨found, inner, same⟩ := Option.map_eq_some_iff.1 read
    obtain ⟨first, later⟩ := Prod.mk.inj same
    rw [inner, Prod.ext (List.append_cancel_left first) later]
  · rintro ⟨clean, apart, read⟩
    rw [templateChunks_text clean apart, read]
    rfl

/-- An expression is given back exactly if it ends at the brace behind it. -/
theorem templateChunks_expression_iff :
    templateChunks ('$' :: '{' :: (e ++ '}' :: rest)) = some ([], (e, chunks.1) :: chunks.2) ↔
      IsEnclosed e ∧ templateChunks rest = some chunks := by
  rw [templateChunks_begun]
  constructor
  · intro read
    obtain ⟨m, found, more⟩ := Option.bind_eq_some_iff.1 read
    obtain ⟨others, inner, same⟩ := Option.map_eq_some_iff.1 more
    simp only [Prod.mk.injEq, List.cons.injEq, true_and] at same
    obtain ⟨⟨taken, first⟩, later⟩ := same
    have size : m = e.length := by
      have shorter := congrArg List.length taken
      rw [List.length_take, List.length_append, List.length_cons] at shorter
      omega
    subst size
    rw [List.drop_length_add_append] at inner
    refine ⟨closingBrace?_append_iff.1 found, ?_⟩
    have whole : others = chunks := Prod.ext first later
    exact whole ▸ inner
  · rintro ⟨enclosed, read⟩
    have behind : (e ++ '}' :: rest).drop (e.length + 1) = rest := by
      rw [List.drop_length_add_append]
      rfl
    rw [closingBrace?_append_iff.2 enclosed, Option.bind_some, behind, read, List.take_left]
    rfl

end

def spelled : List ValuePart → Chunks
  | [] => ([], [])
  | .text t :: rest => (t.data.toList ++ (spelled rest).1, (spelled rest).2)
  | .expression e :: rest => ([], (e.text.toList, (spelled rest).1) :: (spelled rest).2)

/-- A template literal can give the part back: a text has no carriage returns, and an expression ends
nowhere but at the brace behind it. -/
def IsFaithful : ValuePart → Prop
  | .text t => '\r' ∉ t.data.toList
  | .expression e => IsEnclosed e.text.toList

/-- No text ends in a dollar sign with a brace at the beginning of the text behind it. -/
def KeepsApart : List ValuePart → Prop
  | [] => True
  | .text t :: rest => StaysApart t.data.toList (spelled rest).1 ∧ KeepsApart rest
  | .expression _ :: rest => KeepsApart rest

theorem head?_spelled (parts : List ValuePart) :
    (parts.flatMap templatePart ++ ['`']).head? = some '{' ↔
      (spelled parts).1.head? = some '{' := by
  induction parts with
  | nil => simp [spelled]
  | cons part rest ih =>
    rw [List.flatMap_cons, List.append_assoc]
    cases part with
    | text t =>
      rw [templatePart, head?_templateText_append, spelled]
      cases t.data.toList with
      | nil => exact ih
      | cons c others => rfl
    | expression e => simp [templatePart, spelled]

private theorem templateChunks_parts_iff (parts : List ValuePart) :
    templateChunks (parts.flatMap templatePart ++ ['`']) = some (spelled parts) ↔
      (∀ part ∈ parts, IsFaithful part) ∧ KeepsApart parts := by
  induction parts with
  | nil =>
    rw [List.flatMap_nil, List.nil_append, templateChunks_closed (n := 0) rfl]
    exact iff_of_true rfl ⟨nofun, trivial⟩
  | cons part rest ih =>
    rw [List.flatMap_cons, List.append_assoc, List.forall_mem_cons]
    cases part with
    | text t =>
      rw [templatePart, spelled, templateChunks_text_iff, StaysApart, head?_spelled, ih]
      simp only [IsFaithful, KeepsApart, StaysApart]
      grind
    | expression e =>
      have written : templatePart (.expression e) ++ (rest.flatMap templatePart ++ ['`']) =
          '$' :: '{' :: (e.text.toList ++ '}' :: (rest.flatMap templatePart ++ ['`'])) := by
        simp [templatePart]
      rw [written, spelled, templateChunks_expression_iff, ih, and_assoc]
      rfl

theorem staticValue?_text (span : Span) (name : String) (t : RawText) (rest : List ValuePart) :
    PlainAttribute.staticValue? ⟨span, name, .text t :: rest⟩ =
      (PlainAttribute.staticValue? ⟨span, name, rest⟩).map (t.data ++ ·) := by
  unfold PlainAttribute.staticValue?
  extract_lets whole texts
  have first : whole = texts.map (t.data :: ·) := by
    rw [Option.map_eq_bind]
    exact List.mapM_cons
  rw [first, Option.map_map, Option.map_map]
  congr 1
  funext others
  exact String.join_cons

/-- The text of a value without expressions is that of its parts. -/
theorem staticValue?_eq (a : PlainAttribute) : a.staticValue? =
    if (spelled a.value).2 = [] then some (String.ofList (spelled a.value).1) else none := by
  obtain ⟨span, name, value⟩ := a
  induction value with
  | nil => rfl
  | cons part rest ih =>
    cases part with
    | text t =>
      rw [staticValue?_text, ih, spelled, String.ofList_append, String.ofList_toList]
      exact apply_ite ..
    | expression e => rfl

/-- The forms that a value is written in: a value of texts is a string, and one with an expression and
more a template. -/
theorem attributeValue_eq (a : PlainAttribute) : attributeValue a =
    match a.value with
    | [] => "true"
    | [.expression e] => e.text
    | parts =>
      if (spelled parts).2 = [] then quoted (String.ofList (spelled parts).1)
      else templateLiteral parts := by
  obtain ⟨span, name, value⟩ := a
  have static := staticValue?_eq ⟨span, name, value⟩
  cases value with
  | nil => rfl
  | cons part rest =>
    cases part with
    | text t =>
      simp only [attributeValue, static]
      by_cases texts : (spelled (.text t :: rest)).2 = [] <;> simp only [texts, if_true, if_false]
    | expression e =>
      cases rest with
      | nil => rfl
      | cons next others =>
        simp only [attributeValue, static]
        by_cases texts : (spelled (.expression e :: next :: others)).2 = [] <;>
          simp only [texts, if_true, if_false]

private theorem staysApart_nil (text : List Char) : StaysApart text [] := by simp [StaysApart]

section

open Scan

variable {source : String} {s : Scan} {quote : Char} {opening : Nat}

/-- A quoted value is read with no two texts side by side: a text goes on up to a brace or to the end
of the value. -/
theorem keepsApart_quotedParts (since : Since source opening s)
    (accepted : (s.quotedParts quote opening).2.errors = []) :
    KeepsApart (s.quotedParts quote opening).1 ∧
      (EndsRun (fun d => d != quote && d != '{') s.rest →
        (spelled (s.quotedParts quote opening).1).1 = []) := by
  fun_induction quotedParts s quote opening with
  | case1 s ended => exact absurd accepted (errors_fail_ne _ _ _)
  | case2 s c rest ahead closes => exact ⟨trivial, fun _ => rfl⟩
  | case3 s c rest ahead closes isBrace shorter more ih =>
    cases eq_of_beq isBrace
    obtain ⟨toNext, n, found, read⟩ := exists_quotedExpression ahead since accepted
    have others := (ih toNext accepted).1
    simp only [more]
    rw [read] at others ⊢
    exact ⟨others, fun _ => rfl⟩
  | case4 s c rest ahead closes isBrace n shorter more ih =>
    have toNext := since.onward (s.reaches_skip n)
    have behind : (s.skip n).rest = rest.dropWhile (fun d => d != quote && d != '{') := by
      have size : n = 1 + (rest.takeWhile fun d => d != quote && d != '{').length := by
        simp only [n, ahead, List.tail_cons]
      rw [rest_skip, ahead, size, Nat.add_comm, List.drop_succ_cons, drop_length_takeWhile]
    obtain ⟨others, nothing⟩ := ih toNext accepted
    have first := nothing (behind ▸ endsRun_dropWhile _ _)
    refine ⟨⟨?_, others⟩, fun ends => ?_⟩
    · rw [first]
      exact staysApart_nil _
    · have goesOn := ends c (by rw [ahead]; rfl)
      simp_all

private theorem keepsApart_attributeValue (here : (ofSource source).Reaches s)
    (accepted : s.attributeValue.2.errors = []) : KeepsApart s.attributeValue.1 := by
  have since := here.since (s.reaches_skip 1)
  unfold Scan.attributeValue at accepted ⊢
  split at accepted
  · exact (keepsApart_quotedParts since accepted).1
  · exact (keepsApart_quotedParts since accepted).1
  · dsimp only
    cases ((s.skip 1).expression s.pos).1 <;> exact trivial
  · exact ⟨staysApart_nil _, trivial⟩

private theorem value_namedAttribute {span : Span} {name : String} {value : List ValuePart}
    {a : PlainAttribute} (named : namedAttribute span name value = .plain a) : a.value = value := by
  unfold namedAttribute at named
  dsimp only at named
  split at named
  · cases named
  · cases named
    rfl

private theorem keepsApart_of_read {a : PlainAttribute} (here : (ofSource source).Reaches s)
    (read : s.readAttribute.1 = some (.plain a)) (accepted : s.readAttribute.2.errors = []) :
    KeepsApart a.value := by
  unfold readAttribute at read accepted
  split at read
  · obtain ⟨e, _, braced⟩ := Option.bind_eq_some_iff.1 read
    cases start?_bracedAttribute braced
  · rename_i noBrace
    rw [if_neg noBrace] at accepted
    split at read
    · cases read
    · rename_i n count
      rw [count] at accepted
      have value := value_namedAttribute (Option.some.inj read)
      have toValue := ((here.skip (n + 1)).trans (reaches_skipBlank _)).skip 1
      change (s.skip (n + 1)).optionalValue.2.errors = [] at accepted
      rw [value]
      unfold optionalValue at accepted ⊢
      split at accepted
      · rename_i sign
        rw [if_pos sign]
        exact keepsApart_attributeValue (toValue.trans (reaches_skipBlank _)) accepted
      · rename_i sign
        rw [if_neg sign]
        exact trivial

/-- No attribute of an element has texts that would run together. -/
theorem keepsApart_value {a : PlainAttribute} {head : ElementHead}
    (accepted : (parse source).errors = [])
    (element : head ∈ elementsOf (parse source).document.fragment)
    (member : .plain a ∈ head.attributes) : KeepsApart a.value := by
  obtain ⟨t, here, read, clean⟩ := exists_readAttribute accepted element member
  exact keepsApart_of_read here read clean

/-- In a source without errors, a template literal for the value of an attribute depends on its texts and
expressions one by one. -/
theorem templateValue?_of_attribute {a : PlainAttribute} {head : ElementHead}
    (accepted : (parse source).errors = [])
    (element : head ∈ elementsOf (parse source).document.fragment)
    (member : .plain a ∈ head.attributes) :
    templateValue? (templateLiteral a.value).toList = some (spelled a.value) ↔
      ∀ part ∈ a.value, IsFaithful part := by
  have apart := keepsApart_value accepted element member
  rw [templateLiteral, String.toList_ofList, List.cons_append]
  exact (templateChunks_parts_iff a.value).trans (and_iff_left apart)

end

/-- A string is one literal without line ends that denotes its text, and a template literal has the texts
and the expressions of its parts, both exactly if there is no carriage return in a text. A template
literal also depends on its expressions, and on dollar signs where one text comes behind another. -/
theorem slot_values_denoted (text : String) (parts : List ValuePart) (a : PlainAttribute) :
    ('\n' ∉ (quoted text).toList ∧
      ('\r' ∈ (quoted text).toList ↔ '\r' ∈ text.toList) ∧
      (stringValue? (quoted text).toList = some text.toList ↔ '\r' ∉ text.toList)) ∧
    (templateValue? (templateLiteral parts).toList = some (spelled parts) ↔
      (∀ part ∈ parts, IsFaithful part) ∧ KeepsApart parts) ∧
    attributeValue a =
      match a.value with
      | [] => "true"
      | [.expression e] => e.text
      | parts =>
        if (spelled parts).2 = [] then quoted (String.ofList (spelled parts).1)
        else templateLiteral parts := by
  refine ⟨⟨(lineEnds_quoted text).1, (lineEnds_quoted text).2, stringValue?_quoted_iff text⟩, ?_,
    attributeValue_eq a⟩
  rw [templateLiteral, String.toList_ofList, List.cons_append]
  exact templateChunks_parts_iff parts

def slotsOfSource? (source : String) : Option Slots :=
  if (parse source).errors = [] then (slotsOf (parse source).document.fragment).toOption else none

/-- A carriage return is written as it is, so that no string ends behind it, and a template literal
has a newline for it. A comment at the end of an expression takes in the brace behind it and the rest of
the literal. -/
theorem slot_values_altered :
    slotsOfSource? "<slot title=\"a\rb\" />" = some [("default", [("title", "\"a\rb\"")])] ∧
      stringValue? "\"a\rb\"".toList = none ∧
      slotsOfSource? "<slot x=\"a\r\x7bb\x7d\" />" =
        some [("default", [("x", "`a\r$\x7bb\x7d`")])] ∧
      templateValue? "`a\r$\x7bb\x7d`".toList = some ("a\n".toList, [("b".toList, [])]) ∧
      slotsOfSource? "<slot x=\"a\x7bb // c\n\x7dd\" />" =
        some [("default", [("x", "`a$\x7bb // c\x7dd`")])] ∧
      templateValue? "`a$\x7bb // c\x7dd`".toList = none := by
  refine ⟨?_, ?_, ?_, ?_, ?_, ?_⟩ <;> decide +kernel

end TypedSvelte.Component
