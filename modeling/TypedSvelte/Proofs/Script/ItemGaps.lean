import TypedSvelte.Proofs.Script.ItemOrder

/-!
# What stands before an item

Between the last token of an item and the first of the next one there is a gap: white space,
comments up to the end of their lines, and block comments. Each of these is a `Spacer`, and a text
that passes for a gap is the spelling of a list of them (`gap_of_lex`). Wherever a cursor is moved, it
knows the gap before its token (`Cursor.Leads.gapped`), so that every item of a script that is
accepted has a gap before it that goes back to the end of the item before (`gapBefore_of_parse`).
-/
namespace TypedSvelte.Script

/-- A piece of the text between two tokens. -/
inductive Spacer where
  | blank (c : Char)
  /-- A comment up to the end of its line, with its opening; and the character that ends the line. -/
  | line (text : List Char) (lineBreak : Char)
  /-- A block comment; what stands between `/*` and `*/`. -/
  | block (interior : List Char)
  deriving DecidableEq, Repr

/-- The openings of comments that a line ends. The last is the opening of a script alone. -/
def lineOpenings : List (List Char) :=
  [['/', '/'], ['<', '!', '-', '-'], ['-', '-', '>'], ['#', '!']]

namespace Spacer

def chars : Spacer → List Char
  | blank c => [c]
  | line text lineBreak => text ++ [lineBreak]
  | block interior => '/' :: '*' :: (interior ++ ['*', '/'])

/-- Blanks are white space, comments begin with an opening, and none has an ending inside of it. -/
def IsProper : Spacer → Prop
  | blank c => isLineBreak c = true ∨ isGap c = true
  | line text lineBreak => isLineBreak lineBreak = true ∧ (∀ c ∈ text, isLineBreak c = false) ∧
      ∃ opening ∈ lineOpenings, opening <+: text
  | block interior => ¬['*', '/'] <:+: interior

instance : (s : Spacer) → Decidable s.IsProper
  | blank c => inferInstanceAs (Decidable (isLineBreak c = true ∨ isGap c = true))
  | line text lineBreak =>
    have : Decidable (∀ c ∈ text, isLineBreak c = false) := List.decidableBAll _ _
    inferInstanceAs (Decidable (isLineBreak lineBreak = true ∧
      (∀ c ∈ text, isLineBreak c = false) ∧ ∃ opening ∈ lineOpenings, opening <+: text))
  | block interior => inferInstanceAs (Decidable ¬['*', '/'] <:+: interior)

end Spacer

def gapText (gap : List Spacer) : List Char := gap.flatMap Spacer.chars

private theorem gapText_cons (s : Spacer) (gap : List Spacer) :
    gapText (s :: gap) = s.chars ++ gapText gap := List.flatMap_cons ..

section

variable {text rest cs opening : List Char} {c : Char} {gap : List Spacer} {offset : Nat}

/-- The text is a gap up to `rest`. -/
def IsGapTo (text rest : List Char) : Prop :=
  ∃ gap : List Spacer, (∀ s ∈ gap, s.IsProper) ∧ text = gapText gap ++ rest

theorem IsGapTo.cons {s : Spacer} (proper : s.IsProper) (others : IsGapTo text rest) :
    IsGapTo (s.chars ++ text) rest := by
  obtain ⟨gap, properAll, rfl⟩ := others
  exact ⟨s :: gap, List.forall_mem_cons.2 ⟨proper, properAll⟩, by simp [gapText_cons]⟩

/-- The text is what is left of a gap up to `rest`, from within what is being passed over. -/
def Gap.GoesOn (gap : Gap) (text rest : List Char) : Prop :=
  match gap with
  | .blank => IsGapTo text rest
  | .line => ∃ body lineBreak others, text = body ++ lineBreak :: others ∧
      (∀ c ∈ body, isLineBreak c = false) ∧ isLineBreak lineBreak = true ∧ IsGapTo others rest
  | .opening _ => ∃ interior others, text.tail = interior ++ '*' :: '/' :: others ∧
      ¬['*', '/'] <:+: interior ∧ IsGapTo others rest
  | .block _ star => ∃ interior others, (if star then '*' :: text else text) =
      interior ++ '*' :: '/' :: others ∧ ¬['*', '/'] <:+: interior ∧ IsGapTo others rest

private theorem unbroken_of_opening (known : opening ∈ lineOpenings) :
    ∀ c ∈ opening, isLineBreak c = false := by
  have plain : lineOpenings.all (·.all (!isLineBreak ·)) = true := by decide
  intro c member
  have here := List.all_eq_true.1 (List.all_eq_true.1 plain opening known) c member
  simpa using here

/-- What has no line breaks and begins a line stands before its end. -/
theorem prefix_of_unbroken {body others : List Char} {lineBreak : Char}
    (isBreak : isLineBreak lineBreak = true) (unbroken : ∀ c ∈ opening, isLineBreak c = false)
    (opens : opening <+: body ++ lineBreak :: others) : opening <+: body := by
  refine List.prefix_of_prefix_length_le opens (List.prefix_append ..) (Nat.le_of_not_lt ?_)
  intro longer
  obtain ⟨more, whole⟩ := opens
  have inside : (body ++ lineBreak :: others)[body.length]? = some lineBreak := by
    rw [List.getElem?_append_right (Nat.le_refl _), Nat.sub_self]
    rfl
  rw [← whole, List.getElem?_append_left longer] at inside
  have member := List.mem_of_getElem? inside
  rw [unbroken lineBreak member] at isBreak
  cases isBreak

namespace Gap

private theorem goesOn_line (noBreak : ¬isLineBreak c = true) (later : Gap.line.GoesOn cs rest) :
    Gap.line.GoesOn (c :: cs) rest := by
  obtain ⟨body, lineBreak, others, rfl, unbroken, isBreak, gap⟩ := later
  exact ⟨c :: body, lineBreak, others, rfl,
    List.forall_mem_cons.2 ⟨Bool.eq_false_iff.2 noBreak, unbroken⟩, isBreak, gap⟩

private theorem goesOn_block {opened : Nat} {star : Bool} (goesOn : ¬(star && c == '/') = true)
    (later : (Gap.block opened (c == '*')).GoesOn cs rest) :
    (Gap.block opened star).GoesOn (c :: cs) rest := by
  -- the comment from `c` on
  obtain ⟨interior, others, parts, unended, gap⟩ : ∃ interior others,
      c :: cs = interior ++ '*' :: '/' :: others ∧ ¬['*', '/'] <:+: interior ∧
        IsGapTo others rest := by
    obtain ⟨interior, others, parts, unended, gap⟩ := later
    by_cases isStar : c = '*'
    · subst isStar
      exact ⟨interior, others, parts, unended, gap⟩
    · rw [if_neg (by simpa using isStar)] at parts
      refine ⟨c :: interior, others, congrArg (c :: ·) parts, fun ended => ?_, gap⟩
      rcases List.infix_cons_iff.1 ended with here | inside
      · exact isStar (List.cons_prefix_cons.1 here).1.symm
      · exact unended inside
  cases star with
  | false => exact ⟨interior, others, parts, unended, gap⟩
  | true =>
    refine ⟨'*' :: interior, others, congrArg ('*' :: ·) parts, fun ended => ?_, gap⟩
    rcases List.infix_cons_iff.1 ended with here | inside
    · obtain ⟨more, slash⟩ := (List.cons_prefix_cons.1 here).2
      rw [← slash] at parts
      have same : c = '/' := (List.cons.inj parts).1
      exact goesOn (by simp [same])
    · exact unended inside

private theorem isGapTo_of_line (noBreak : ¬isLineBreak c = true) (known : opening ∈ lineOpenings)
    (opens : opening <+: c :: cs) (later : Gap.line.GoesOn cs rest) : IsGapTo (c :: cs) rest := by
  obtain ⟨body, lineBreak, others, rfl, unbroken, isBreak, gap⟩ := later
  have whole : c :: (body ++ lineBreak :: others) =
      (Spacer.line (c :: body) lineBreak).chars ++ others := by
    simp [Spacer.chars]
  have proper : (Spacer.line (c :: body) lineBreak).IsProper :=
    ⟨isBreak, List.forall_mem_cons.2 ⟨Bool.eq_false_iff.2 noBreak, unbroken⟩, opening, known,
      prefix_of_unbroken isBreak (unbroken_of_opening known) opens⟩
  exact whole ▸ gap.cons proper

private theorem isGapTo_of_opening {opened : Nat} (star : cs.head? = some '*')
    (later : (Gap.opening opened).GoesOn cs rest) : IsGapTo ('/' :: cs) rest := by
  obtain ⟨tail, rfl⟩ := List.head?_eq_some_iff.1 star
  obtain ⟨interior, others, rfl, unended, gap⟩ := later
  have whole : '/' :: '*' :: (interior ++ '*' :: '/' :: others) =
      (Spacer.block interior).chars ++ others := by
    simp [Spacer.chars]
  exact whole ▸ gap.cons (s := .block interior) unended

end Gap

/-- What is passed between tokens is a gap. -/
theorem goesOn_passGap (strict : Bool) (gap : Gap) (offset : Nat) (afterBreak : Bool)
    (faults : List Nat) (text : List Char)
    (reaches : (passGap strict gap offset afterBreak faults text).text ≠ []) :
    gap.GoesOn text (passGap strict gap offset afterBreak faults text).text := by
  fun_induction passGap strict gap offset afterBreak faults text with
  | case1 => exact absurd rfl reaches
  | case2 offset afterBreak faults c cs next isBreak ih =>
    exact ⟨[], c, cs, rfl, List.forall_mem_nil _, isBreak, ih reaches⟩
  | case3 offset afterBreak faults c cs next noBreak ih => exact Gap.goesOn_line noBreak (ih reaches)
  | case4 offset afterBreak faults c cs next opened ih => exact ih reaches
  | case5 offset afterBreak faults c cs next opened star ends ih =>
    obtain ⟨rfl, slash⟩ := Bool.and_eq_true_iff.1 ends
    obtain rfl := eq_of_beq slash
    exact ⟨[], cs, rfl, by simp, ih reaches⟩
  | case6 offset afterBreak faults c cs next opened star goesOn ih =>
    exact Gap.goesOn_block goesOn (ih reaches)
  | case7 offset afterBreak faults c cs next isBreak ih =>
    exact (ih reaches).cons (s := .blank c) (.inl isBreak)
  | case8 offset afterBreak faults c cs next noBreak isBlank ih =>
    exact (ih reaches).cons (s := .blank c) (.inr isBlank)
  | case9 offset afterBreak faults c cs next noBreak notBlank slashes ih =>
    obtain ⟨first, second⟩ := Bool.and_eq_true_iff.1 slashes
    obtain rfl := eq_of_beq first
    obtain ⟨tail, rfl⟩ := List.head?_eq_some_iff.1 (eq_of_beq second)
    exact Gap.isGapTo_of_line noBreak (.head _) ⟨tail, rfl⟩ (ih reaches)
  | case10 offset afterBreak faults c cs next noBreak notBlank notLine opens ih =>
    obtain ⟨first, second⟩ := Bool.and_eq_true_iff.1 opens
    obtain rfl := eq_of_beq first
    exact Gap.isGapTo_of_opening (eq_of_beq second) (ih reaches)
  | case11 offset afterBreak faults c cs next noBreak notBlank notLine notBlock opens ih =>
    simp only [Bool.or_eq_true, Bool.and_eq_true, beq_iff_eq, List.isPrefixOf_iff_prefix] at opens
    obtain ⟨rfl, others⟩ | ⟨⟨rfl, _⟩, others⟩ := opens
    · exact Gap.isGapTo_of_line noBreak (.tail _ (.head _)) (List.cons_prefix_cons.2 ⟨rfl, others⟩)
        (ih reaches)
    · exact Gap.isGapTo_of_line noBreak (.tail _ (.tail _ (.head _)))
        (List.cons_prefix_cons.2 ⟨rfl, others⟩) (ih reaches)
  | case12 => exact ⟨[], List.forall_mem_nil _, rfl⟩

private theorem gap_of_passGap {strict afterBreak : Bool} {faults : List Nat}
    (reaches : (passGap strict .blank offset afterBreak faults text).text ≠ []) :
    ∃ gap : List Spacer, (∀ s ∈ gap, s.IsProper) ∧
      text = gapText gap ++ (passGap strict .blank offset afterBreak faults text).text ∧
      (passGap strict .blank offset afterBreak faults text).offset =
        offset + byteSize (gapText gap) := by
  obtain ⟨passed, parts, reached⟩ := passes_passGap strict .blank offset afterBreak faults text
  obtain ⟨gap, proper, same⟩ := goesOn_passGap strict .blank offset afterBreak faults text reaches
  obtain rfl : passed = gapText gap := List.append_cancel_right (parts.symm.trans same)
  exact ⟨gap, proper, same, reached⟩

/-- A token stands where the gap before it ends. -/
theorem place_of_lex (strict : Bool) (reaches : (lex strict offset text).text ≠ []) :
    (lex strict offset text).text = (passGap strict .blank offset false [] text).text ∧
      (lex strict offset text).token.start =
        (passGap strict .blank offset false [] text).offset := by
  unfold lex at reaches ⊢
  dsimp only at reaches ⊢
  split at reaches
  · exact absurd rfl reaches
  · exact ⟨rfl, rfl⟩

/-- The first token behind a place in a text has a gap before it, if the text does not end there. -/
theorem gap_of_lex (strict : Bool) (reaches : (lex strict offset text).text ≠ []) :
    ∃ gap : List Spacer, (∀ s ∈ gap, s.IsProper) ∧
      text = gapText gap ++ (lex strict offset text).text ∧
      (lex strict offset text).token.start = offset + byteSize (gapText gap) := by
  obtain ⟨same, start⟩ := place_of_lex strict reaches
  rw [same] at reaches ⊢
  rw [start]
  exact gap_of_passGap reaches

/-- Where the text ends there is no token. -/
theorem kind_of_lex_nil (strict : Bool) (ends : (lex strict offset text).text = []) :
    (lex strict offset text).token.kind = .endOfText ∨
      ∃ fault, (lex strict offset text).token.kind = .invalid fault := by
  unfold lex at ends ⊢
  dsimp only at ends ⊢
  split at ends
  · rename_i opened _
    exact .inr ⟨opened, rfl⟩
  · dsimp only at ends
    rw [ends]
    exact .inl rfl

end

/-- The cursor has a gap between the token read last and the next one, unless the text ends
before. -/
structure Cursor.Gapped (text : List Char) (cursor : Cursor) : Prop where
  gap : cursor.text ≠ [] → ∃ (before : List Char) (gap : List Spacer), (∀ s ∈ gap, s.IsProper) ∧
    text = before ++ (gapText gap ++ cursor.text) ∧ byteSize before = cursor.previous ∧
    byteSize (before ++ gapText gap) = cursor.token.start
  ended : cursor.text = [] →
    cursor.token.kind = .endOfText ∨ ∃ fault, cursor.token.kind = .invalid fault

namespace Cursor

variable {text rest : List Char} {offset : Nat} {origin cursor : Cursor}

theorem Gapped.moveTo (cursor : Cursor) (here : Resumes text offset rest) :
    (cursor.moveTo offset rest).Gapped text := by
  refine ⟨fun reaches => ?_, kind_of_lex_nil true⟩
  obtain ⟨before, rfl, size⟩ := here
  obtain ⟨gap, proper, parts, start⟩ := gap_of_lex true reaches
  refine ⟨before, gap, proper, congrArg (before ++ ·) parts, size, ?_⟩
  rw [byteSize_append, size]
  exact start.symm

theorem gapped_standing (strict : Bool) (text : List Char) : (standing strict text).Gapped text := by
  refine ⟨fun _ => ⟨[], [], nofun, rfl, rfl, rfl⟩, ?_⟩
  rintro rfl
  exact .inl rfl

theorem Gapped.rejoin {next : Cursor} (here : cursor.Sits text) (inner : next.Gapped cursor.text) :
    (next.rejoin cursor).Gapped text := by
  constructor
  · intro reaches
    obtain ⟨outer, whole, size⟩ := here.token
    obtain ⟨before, gap, proper, parts, ends, start⟩ := inner.gap reaches
    refine ⟨outer ++ before, gap, proper, ?_, ?_, ?_⟩
    · rw [whole, parts, List.append_assoc]
      rfl
    · rw [byteSize_append, size, ends]
      exact Nat.add_comm _ _
    · rw [List.append_assoc, byteSize_append, size, start]
      exact Nat.add_comm _ _
  · intro ends
    obtain isEnd | ⟨fault, invalid⟩ := inner.ended ends
    · exact .inl (congrArg (TokenKind.shift _) isEnd)
    · exact .inr ⟨_, congrArg (TokenKind.shift _) invalid⟩

/-- However the cursor is moved, it has a gap before its token. -/
theorem Leads.gapped (leads : origin.Leads cursor) (sits : origin.Sits text)
    (here : origin.Gapped text) : cursor.Gapped text := by
  induction leads with
  | refl => exact here
  | skip leads n ih => exact .moveTo _ ((leads.sits sits).1.rest.drop n)
  | pass leads n ih => exact .moveTo _ ((leads.sits sits).1.token.drop n)
  | narrow leads ih =>
    unfold Cursor.narrow
    split
    · exact ih
    · rename_i c rest ahead
      exact ⟨fun reaches => ih.gap reaches,
        fun ends => absurd (ahead.symm.trans ends) (List.cons_ne_nil _ _)⟩
  | note _ _ ih | noteToken _ _ ih | identify _ ih => exact ⟨ih.gap, ih.ended⟩

/-- The first token of a script has a gap before it. A first line that begins with `#!` belongs to
it. -/
theorem gapped_first (text : List Char) : (Cursor.first text).Gapped text := by
  unfold Cursor.first
  split
  · rename_i marked
    refine ⟨fun reaches => ?_, kind_of_lex_nil true⟩
    obtain ⟨same, start⟩ := place_of_lex true reaches
    change (lex true _ _).text ≠ [] at reaches
    change ∃ before gap, _ ∧ text = before ++ (gapText gap ++ (lex true _ _).text) ∧ _ ∧
      _ = (lex true _ _).token.start
    rw [same] at reaches ⊢
    rw [start]
    have parts : text = text.takeWhile (!isLineBreak ·) ++ text.dropWhile (!isLineBreak ·) :=
      List.takeWhile_append_dropWhile.symm
    have behind : text.drop (text.takeWhile (!isLineBreak ·)).length =
        text.dropWhile (!isLineBreak ·) :=
      List.append_cancel_left ((List.prefix_iff_eq_append.1 (List.takeWhile_prefix _)).trans parts)
    have unbroken : ∀ c ∈ text.takeWhile (!isLineBreak ·), isLineBreak c = false :=
      fun c member => by simpa using List.all_eq_true.1 List.all_takeWhile c member
    have first := List.head?_dropWhile_not (!isLineBreak ·) text
    rw [behind] at reaches ⊢
    generalize text.takeWhile (!isLineBreak ·) = line at parts reaches unbroken ⊢
    cases rest : text.dropWhile (!isLineBreak ·) with
    | nil =>
      rw [rest] at reaches
      exact absurd rfl reaches
    | cons lineBreak tail =>
      rw [rest] at reaches first parts
      have isBreak : isLineBreak lineBreak = true := by simpa using first
      have passed : passGap true .blank (byteSize line) false [] (lineBreak :: tail) =
          passGap true .blank (byteSize line + lineBreak.utf8Size) true [] tail := by
        rw [passGap.eq_def]
        exact if_pos isBreak
      rw [passed] at reaches ⊢
      obtain ⟨gap, proper, same, reached⟩ := gap_of_passGap reaches
      have opens : ['#', '!'] <+: line ++ lineBreak :: tail :=
        parts ▸ List.isPrefixOf_iff_prefix.1 marked
      have known : ['#', '!'] ∈ lineOpenings := by decide
      have hashbang : (Spacer.line line lineBreak).IsProper :=
        ⟨isBreak, unbroken, _, known,
          prefix_of_unbroken isBreak (unbroken_of_opening known) opens⟩
      refine ⟨[], .line line lineBreak :: gap, List.forall_mem_cons.2 ⟨hashbang, proper⟩, ?_, rfl, ?_⟩
      · rw [parts, gapText_cons]
        simp [Spacer.chars, ← same]
      · rw [reached, gapText_cons]
        simp [Spacer.chars, byteSize_append, byteSize, Nat.add_assoc]
  · refine ⟨fun reaches => ?_, kind_of_lex_nil false⟩
    obtain ⟨gap, proper, parts, start⟩ := gap_of_lex false reaches
    rw [Nat.zero_add] at start
    exact ⟨[], gap, proper, parts, rfl, start.symm⟩

end Cursor

/-- Where the last of the items ends that stand before another one. -/
def endOf (start : Nat) (earlier : List Item) : Nat :=
  (earlier.getLast?.map (·.span.stop)).getD start

/-- Where an item begins in the source. Spans are counted from behind a byte order mark. -/
def Item.startIn (source : String) (item : Item) : Nat :=
  byteSize (markOf source.toList) + item.span.start

/-- What stands before an item: the text up to the end of the item before, and the gap behind it. -/
structure GapBefore (source : String) (earlier : List Item) (item : Item) (before : List Char)
    (gap : List Spacer) : Prop where
  proper : ∀ s ∈ gap, s.IsProper
  parts : ∃ rest, source.toList = before ++ (gapText gap ++ rest)
  begins : byteSize before = byteSize (markOf source.toList) + endOf 0 earlier
  ends : byteSize (before ++ gapText gap) = item.startIn source

namespace Grammar

open Reader

variable {g : Grammar} {context : Context} {cursor last : Cursor} {text : List Char} {start : Nat}
  {found earlier later : List Item} {item : Item}

private theorem endOf_cons (first : Item) : endOf start (first :: earlier) = endOf first.span.stop earlier := by
  unfold endOf
  rw [List.getLast?_cons]
  cases earlier.getLast? <;> rfl

/-- Every item that is read has a gap before it, behind the item before. -/
theorem Itemized.gap {strict : Bool} (itemized : Itemized g context strict cursor found last)
    (sits : cursor.Sits text) (gapped : cursor.Gapped text) (here : found = earlier ++ item :: later) :
    ∃ (before : List Char) (gap : List Spacer), (∀ s ∈ gap, s.IsProper) ∧
      (∃ rest, text = before ++ (gapText gap ++ rest)) ∧
      byteSize before = endOf cursor.previous earlier ∧
      byteSize (before ++ gapText gap) = item.span.start := by
  induction itemized generalizing earlier with
  | done => exact absurd here (by simp)
  | @item strict cursor next last first others begins valid read itemized ih =>
    have alone := Cursor.sits_standing strict cursor.text
    obtain ⟨span, -⟩ := keptFrom_of_moduleItem alone read
    have leads := leads_of_run read
    cases earlier with
    | nil =>
      cases here
      have reaches : cursor.text ≠ [] := by
        intro ends
        obtain isEnd | ⟨fault, invalid⟩ := gapped.ended ends
        · rw [Token.isEnd, isEnd] at begins
          cases begins
        · exact valid fault invalid
      obtain ⟨before, gap, proper, parts, size, start⟩ := gapped.gap reaches
      refine ⟨before, gap, proper, ⟨_, parts⟩, size, start.trans ?_⟩
      change _ = first.span.start + cursor.token.start
      rw [span]
      exact (Nat.zero_add _).symm
    | cons _ earlier =>
      cases here
      obtain ⟨before, gap, proper, parts, size, start⟩ := ih (sits.rejoin (leads.sits alone).1)
        (.rejoin sits (leads.gapped alone (Cursor.gapped_standing _ _))) rfl
      refine ⟨before, gap, proper, parts, ?_, start⟩
      rw [endOf_cons]
      change _ = endOf (first.span.stop + cursor.token.start) earlier
      rw [span]
      exact size

end Grammar

/-- Every item of a script that is accepted has a gap before it, behind the item before. -/
theorem gapBefore_of_parse {typed : Bool} {source : String} {outline : Outline}
    {earlier later : List Item} {item : Item} (read : parse typed source = .ok outline)
    (here : outline.items = earlier ++ item :: later) :
    ∃ before gap, GapBefore source earlier item before gap := by
  obtain ⟨last, itemized, -⟩ := (parse_eq_ok_iff rfl).1 read
  obtain ⟨before, gap, proper, ⟨rest, parts⟩, begins, ends⟩ :=
    itemized.gap (sits_first _) (Cursor.gapped_first _) here
  have atStart : (Cursor.first (withoutMark source.toList)).previous = 0 := by
    unfold Cursor.first
    split <;> rfl
  rw [atStart] at begins
  refine ⟨markOf source.toList ++ before, gap, proper, ⟨rest, ?_⟩, ?_, ?_⟩
  · rw [List.append_assoc, ← parts, markOf_append]
  · rw [byteSize_append, begins]
  · rw [List.append_assoc, byteSize_append, ends]
    rfl

end TypedSvelte.Script
