import TypedSvelte.Position.LineIndex
import TypedSvelte.Proofs.Position.Spans
import TypedSvelte.Proofs.Text.Encoding

/-!
# Lines of a text

Lines are counted by newline bytes. The starts that an index keeps are the beginning of the text and
the offsets just after its newline bytes, in order (`mem_starts`, `increasing_starts`), so the line
of an offset is the last one that starts at or before it (`exists_position`). The way back accepts
columns behind the end of a line; it leads to the same line and column exactly before the start of
the next line (`position?_of_offset?`, `newlinesBefore_eq_iff`).
-/
namespace TypedSvelte

def newline : UInt8 := 10

def newlinesBefore (text : String) (offset : Nat) : Nat := ((bytes text).take offset).count newline

/-- The offset is the beginning of the text or just after a newline byte. -/
def StartsLine (text : String) (start : Nat) : Prop :=
  start = 0 ∨ ∃ i, (bytes text)[i]? = some newline ∧ start = i + 1

/-- The line with a number, counted from zero, begins at an offset. -/
def LineAt (text : String) (line start : Nat) : Prop :=
  StartsLine text start ∧ newlinesBefore text start = line

/-- The offset just after the last newline byte before another one, or zero if there is none. -/
structure AfterLastNewline (text : String) (offset start : Nat) : Prop where
  le : start ≤ offset
  starts : StartsLine text start
  none_between : ∀ i, start ≤ i → i < offset → (bytes text)[i]? ≠ some newline

/-- The order of lines and columns: by line, and by column on the same line. -/
def LineColumn.Before (a b : LineColumn) : Prop :=
  a.line < b.line ∨ a.line = b.line ∧ a.column < b.column

section Characters

variable {c : Char} {cs : List Char} {s offset n : Nat}

private theorem bytes_newline (cs : List Char) :
    bytes (String.ofList ('\n' :: cs)) = newline :: bytes (String.ofList cs) := by
  rw [bytes_ofList_cons, bytes_of_narrow rfl]
  rfl

/-- No byte of another character is a newline byte. -/
theorem newline_not_mem (other : c ≠ '\n') : newline ∉ bytes (String.singleton c) := by
  intro member
  by_cases narrow : c.utf8Size = 1
  · rw [bytes_of_narrow narrow, List.mem_singleton] at member
    have small : c.val.toNat ≤ 127 := Char.utf8Size_eq_one_iff.1 narrow
    have code : (10 : Nat) = c.val.toNat % 256 := congrArg UInt8.toNat member
    rw [Nat.mod_eq_of_lt (by omega)] at code
    exact other (Char.toNat_inj.1 code.symm)
  · exact absurd (le_of_mem_bytes narrow member) (by decide)

end Characters

namespace LineIndex

variable {c : Char} {cs : List Char} {text : String} {s offset n : Nat} {p : LineColumn}

private theorem startsAfter_cons : startsAfter offset (c :: cs) =
    (if c = '\n' then [offset + c.utf8Size] else []) ++ startsAfter (offset + c.utf8Size) cs := by
  rw [startsAfter]
  split <;> rfl

private theorem mem_startsAfter : s ∈ startsAfter offset cs ↔
    ∃ i, (bytes (String.ofList cs))[i]? = some newline ∧ s = offset + i + 1 := by
  induction cs generalizing offset with
  | nil => simp [startsAfter]
  | cons c cs ih =>
    rw [startsAfter_cons, List.mem_append, ih]
    by_cases isNewline : c = '\n'
    · subst isNewline
      rw [if_pos rfl, List.mem_singleton, bytes_newline]
      constructor
      · rintro (rfl | ⟨i, found, rfl⟩)
        · exact ⟨0, rfl, rfl⟩
        · exact ⟨i + 1, found, by change offset + 1 + i + 1 = _; omega⟩
      · rintro ⟨_ | i, found, rfl⟩
        · exact .inl rfl
        · exact .inr ⟨i, found, by change _ = offset + 1 + i + 1; omega⟩
    · have absent := newline_not_mem isNewline
      have size := length_bytes_singleton c
      rw [if_neg isNewline, bytes_ofList_cons]
      constructor
      · rintro (here | ⟨i, found, rfl⟩)
        · cases here
        · refine ⟨c.utf8Size + i, ?_, by omega⟩
          rw [List.getElem?_append_right (by omega), size, Nat.add_sub_cancel_left]
          exact found
      · rintro ⟨i, found, rfl⟩
        by_cases inside : i < c.utf8Size
        · rw [List.getElem?_append_left (by omega)] at found
          exact absurd (List.mem_of_getElem? found) absent
        · rw [List.getElem?_append_right (by omega), size] at found
          exact .inr ⟨i - c.utf8Size, found, by omega⟩

private theorem lt_of_mem_startsAfter (member : s ∈ startsAfter offset cs) : offset < s := by
  obtain ⟨i, _, rfl⟩ := mem_startsAfter.1 member
  omega

private theorem increasing_startsAfter (offset : Nat) (cs : List Char) :
    (startsAfter offset cs).Pairwise (· < ·) := by
  induction cs generalizing offset with
  | nil => exact .nil
  | cons c cs ih =>
    rw [startsAfter_cons]
    split
    · exact .cons (fun s member => lt_of_mem_startsAfter member) (ih _)
    · exact ih _

/-- There are as many starts up to an offset as newline bytes before it. -/
theorem length_filter_startsAfter (offset n : Nat) (cs : List Char) :
    ((startsAfter offset cs).filter (· ≤ offset + n)).length =
      ((bytes (String.ofList cs)).take n).count newline := by
  induction cs generalizing offset n with
  | nil => simp [startsAfter]
  | cons c cs ih =>
    have size := length_bytes_singleton c
    have here : ((if c = '\n' then [offset + c.utf8Size] else []).filter (· ≤ offset + n)).length =
        ((bytes (String.singleton c)).take n).count newline := by
      by_cases isNewline : c = '\n'
      · subst isNewline
        have narrow : '\n'.utf8Size = 1 := rfl
        rw [if_pos rfl, bytes_of_narrow narrow]
        cases n with
        | zero => simp [narrow]
        | succ n => simp [narrow, newline]
      · rw [if_neg isNewline]
        symm
        apply List.count_eq_zero_of_not_mem
        exact fun member => newline_not_mem isNewline (List.mem_of_mem_take member)
    have later : ((startsAfter (offset + c.utf8Size) cs).filter (· ≤ offset + n)).length =
        ((bytes (String.ofList cs)).take (n - c.utf8Size)).count newline := by
      by_cases reached : c.utf8Size ≤ n
      · rw [← ih (offset + c.utf8Size), Nat.add_assoc, Nat.add_sub_cancel' reached]
      · rw [Nat.sub_eq_zero_of_le (Nat.le_of_not_le reached), List.take_zero]
        apply List.length_eq_zero_iff.2
        apply List.filter_eq_nil_iff.2
        intro s member
        have behind := lt_of_mem_startsAfter member
        simp only [decide_eq_true_eq]
        omega
    rw [startsAfter_cons, List.filter_append, List.length_append, here, later, bytes_ofList_cons,
      List.take_append, List.count_append, size]

private theorem starts_ofText (text : String) :
    (ofText text).starts = 0 :: startsAfter 0 text.toList := rfl

/-- The starts are the offsets at which lines begin. -/
theorem mem_starts : s ∈ (ofText text).starts ↔ StartsLine text s := by
  rw [starts_ofText, List.mem_cons, mem_startsAfter, String.ofList_toList]
  simp only [StartsLine, Nat.zero_add]

private theorem increasing_starts (text : String) : (ofText text).starts.Pairwise (· < ·) :=
  .cons (fun _ member => lt_of_mem_startsAfter member) (increasing_startsAfter 0 text.toList)

/-- An offset lies behind as many starts as there are newline bytes before it, and the one at the
beginning. -/
theorem length_upTo (text : String) (offset : Nat) :
    ((ofText text).starts.takeWhile (· ≤ offset)).length = newlinesBefore text offset + 1 := by
  have partitioned : (ofText text).starts.Pairwise fun a b =>
      decide (b ≤ offset) = true → decide (a ≤ offset) = true := by
    refine (increasing_starts text).imp fun before reached => ?_
    simp only [decide_eq_true_eq] at reached ⊢
    omega
  have counted := length_filter_startsAfter 0 offset text.toList
  rw [String.ofList_toList, Nat.zero_add] at counted
  rw [takeWhile_eq_filter partitioned, starts_ofText,
    List.filter_cons_of_pos (by simp), List.length_cons, counted]
  rfl

/-- A line begins at or before an offset if enough newline bytes come before that. -/
theorem le_newlinesBefore_iff : n ≤ newlinesBefore text offset ↔
    ∃ start, (ofText text).starts[n]? = some start ∧ start ≤ offset := by
  have reached {starts : List Nat} (increasing : starts.Pairwise (· < ·)) :
      n < (starts.takeWhile (· ≤ offset)).length ↔
        ∃ start, starts[n]? = some start ∧ start ≤ offset := by
    induction starts generalizing n with
    | nil => simp
    | cons first rest ih =>
      obtain ⟨before, restIncreasing⟩ := List.pairwise_cons.1 increasing
      by_cases here : first ≤ offset
      · rw [List.takeWhile_cons_of_pos (by simpa using here), List.length_cons]
        cases n with
        | zero => simp [here]
        | succ n => simpa using ih restIncreasing
      · rw [List.takeWhile_cons_of_neg (by simpa using here)]
        constructor
        · intro none
          cases none
        · rintro ⟨start, found, le⟩
          rcases List.mem_cons.1 (List.mem_of_getElem? found) with rfl | later
          · exact absurd le here
          · exact absurd (Nat.le_trans (Nat.le_of_lt (before start later)) le) here
  rw [← Nat.lt_succ_iff, Nat.succ_eq_add_one, ← length_upTo]
  exact reached (increasing_starts text)

private theorem newlinesBefore_mono {a b : Nat} (le : a ≤ b) :
    newlinesBefore text a ≤ newlinesBefore text b :=
  (List.take_sublist_take_left le).count_le newline

/-- The starts are numbered as the lines are. -/
theorem starts_eq_some_iff : (ofText text).starts[n]? = some s ↔ LineAt text n s := by
  have number {n : Nat} (found : (ofText text).starts[n]? = some s) :
      newlinesBefore text s = n := by
    have reached := le_newlinesBefore_iff.2 ⟨s, found, Nat.le_refl s⟩
    refine Nat.le_antisymm (Nat.not_lt.1 fun further => ?_) reached
    have more : n + 1 ≤ newlinesBefore text s := further
    obtain ⟨next, foundNext, le⟩ := le_newlinesBefore_iff.1 more
    obtain ⟨first, rfl⟩ := List.getElem?_eq_some_iff.1 found
    obtain ⟨second, rfl⟩ := List.getElem?_eq_some_iff.1 foundNext
    have ordered := List.pairwise_iff_getElem.1 (increasing_starts text) n (n + 1) first second
    omega
  constructor
  · exact fun found => ⟨mem_starts.1 (List.mem_of_getElem? found), number found⟩
  · rintro ⟨starts, rfl⟩
    obtain ⟨m, found⟩ := List.mem_iff_getElem?.1 (mem_starts.2 starts)
    rwa [number found]

/-- A line begins only once. -/
theorem lineAt_unique {a b : Nat} (first : LineAt text n a) (second : LineAt text n b) :
    a = b := by
  have found := starts_eq_some_iff.2 first
  rw [starts_eq_some_iff.2 second, Option.some_inj] at found
  exact found.symm

/-- The line of an offset is numbered by the newline bytes before it. -/
theorem exists_position (inside : offset ≤ text.utf8ByteSize) :
    ∃ start, LineAt text (newlinesBefore text offset) start ∧ start ≤ offset ∧
      (ofText text).position? offset = some ⟨newlinesBefore text offset, offset - start⟩ := by
  obtain ⟨start, found, le⟩ := le_newlinesBefore_iff.1 (Nat.le_refl (newlinesBefore text offset))
  refine ⟨start, starts_eq_some_iff.1 found, le, ?_⟩
  have counted := length_upTo text offset
  have last : ((ofText text).starts.takeWhile (· ≤ offset)).getLast? = some start := by
    have front : (ofText text).starts.takeWhile (· ≤ offset) <+: (ofText text).starts :=
      List.takeWhile_prefix _
    have inFront := List.prefix_iff_getElem?.1 front (newlinesBefore text offset) (by omega)
    rw [List.getLast?_eq_getElem?, counted, Nat.add_sub_cancel, List.getElem?_eq_getElem (by omega),
      ← inFront, found]
  have known : ¬ (ofText text).length < offset := Nat.not_lt.2 inside
  unfold position?
  rw [if_neg known]
  dsimp only
  rw [last, counted]
  rfl

/-- An offset is that of a line and a column of the text. -/
theorem offset?_eq_some_iff : (ofText text).offset? p = some offset ↔
    ∃ start, LineAt text p.line start ∧ start + p.column = offset ∧ offset ≤ text.utf8ByteSize := by
  have length : (ofText text).length = text.utf8ByteSize := rfl
  unfold offset?
  rw [Option.bind_eq_bind, Option.bind_eq_some_iff]
  refine exists_congr fun start => ?_
  rw [starts_eq_some_iff, Option.ite_none_right_eq_some, length]
  refine and_congr_right fun _ => ?_
  constructor
  · rintro ⟨inside, same⟩
    cases same
    exact ⟨rfl, inside⟩
  · rintro ⟨rfl, inside⟩
    exact ⟨inside, rfl⟩

/-- The position of an offset is the one whose line is numbered by the newline bytes before it. -/
theorem position?_of_offset? (found : (ofText text).offset? p = some offset) :
    (ofText text).position? offset = some p ↔ newlinesBefore text offset = p.line := by
  obtain ⟨start, begins, rfl, inside⟩ := offset?_eq_some_iff.1 found
  obtain ⟨own, ownBegins, le, position⟩ := exists_position inside
  rw [position, Option.some_inj]
  constructor
  · exact congrArg LineColumn.line
  · intro line
    rw [line] at ownBegins
    rw [line, lineAt_unique ownBegins begins, Nat.add_sub_cancel_left]

/-- The last line that begins at or before an offset begins behind the last newline byte before
it. -/
theorem afterLastNewline (begins : LineAt text (newlinesBefore text offset) s) (le : s ≤ offset) :
    AfterLastNewline text offset s := by
  refine ⟨le, begins.1, fun i from_ before isNewline => ?_⟩
  have upTo : newlinesBefore text (i + 1) = newlinesBefore text i + 1 := by
    rw [newlinesBefore, List.take_add_one, isNewline, List.count_append]
    rfl
  have behind : newlinesBefore text s ≤ newlinesBefore text i := newlinesBefore_mono from_
  have further : newlinesBefore text (i + 1) ≤ newlinesBefore text offset :=
    newlinesBefore_mono before
  rw [begins.2] at behind
  omega

/-- As many newline bytes come before an offset behind the start of a line as before that line, if
it is the last one or the next one begins later. -/
theorem newlinesBefore_eq_iff (begins : LineAt text n s) (le : s ≤ offset)
    (inside : offset ≤ text.utf8ByteSize) :
    newlinesBefore text offset = n ↔
      newlinesBefore text text.utf8ByteSize = n ∨
        ∃ next, LineAt text (n + 1) next ∧ offset < next := by
  have atLeast : newlinesBefore text s ≤ newlinesBefore text offset := newlinesBefore_mono le
  have atMost : newlinesBefore text offset ≤ newlinesBefore text text.utf8ByteSize :=
    newlinesBefore_mono inside
  rw [begins.2] at atLeast
  constructor
  · rintro rfl
    refine Decidable.or_iff_not_imp_left.2 fun notLast => ?_
    have more : newlinesBefore text offset + 1 ≤ newlinesBefore text text.utf8ByteSize := by omega
    obtain ⟨next, found, _⟩ := le_newlinesBefore_iff.1 more
    have nextBegins := starts_eq_some_iff.1 found
    refine ⟨next, nextBegins, Nat.not_le.1 fun reached => ?_⟩
    have many : newlinesBefore text next ≤ newlinesBefore text offset := newlinesBefore_mono reached
    rw [nextBegins.2] at many
    omega
  · rintro (last | ⟨next, nextBegins, before⟩)
    · omega
    · refine Nat.le_antisymm (Nat.not_lt.1 fun further => ?_) atLeast
      have more : n + 1 ≤ newlinesBefore text offset := further
      obtain ⟨other, found, reached⟩ := le_newlinesBefore_iff.1 more
      have same := lineAt_unique (starts_eq_some_iff.1 found) nextBegins
      omega

/-- Only what lies past the end has no position. -/
theorem position?_eq_none_iff :
    (ofText text).position? offset = none ↔ text.utf8ByteSize < offset := by
  constructor
  · intro none
    refine Nat.not_le.1 fun inside => ?_
    obtain ⟨_, _, _, position⟩ := exists_position inside
    rw [none] at position
    cases position
  · intro past
    have outside : (ofText text).length < offset := past
    exact if_pos outside

/-- What the position of an offset says. -/
theorem exists_of_position? (found : (ofText text).position? offset = some p) :
    offset ≤ text.utf8ByteSize ∧ ∃ start, LineAt text (newlinesBefore text offset) start ∧
      start ≤ offset ∧ p = ⟨newlinesBefore text offset, offset - start⟩ := by
  have inside : offset ≤ text.utf8ByteSize := Nat.not_lt.1 fun past => by
    rw [position?_eq_none_iff.2 past] at found
    cases found
  obtain ⟨start, begins, le, position⟩ := exists_position inside
  rw [found, Option.some_inj] at position
  exact ⟨inside, start, begins, le, position⟩

/-- Later offsets have later positions: on a later line, or behind on the same one. -/
theorem before_of_lt {a b : Nat} {q : LineColumn} (before : a < b)
    (foundA : (ofText text).position? a = some p) (foundB : (ofText text).position? b = some q) :
    p.Before q := by
  obtain ⟨_, first, firstBegins, firstLe, rfl⟩ := exists_of_position? foundA
  obtain ⟨_, second, secondBegins, secondLe, rfl⟩ := exists_of_position? foundB
  have lines : newlinesBefore text a ≤ newlinesBefore text b :=
    newlinesBefore_mono (Nat.le_of_lt before)
  rcases Nat.lt_or_eq_of_le lines with earlier | same
  · exact .inl earlier
  · rw [same] at firstBegins
    have sameStart : first = second := lineAt_unique firstBegins secondBegins
    have columns : a - first < b - second := by omega
    exact .inr ⟨same, columns⟩

/-- Offsets and positions of a text, for a text of any length. An offset has a position unless it
lies past the end: the line is the number of newline bytes before it, the column counts from behind
the last one of them, and the position leads back to it. Later offsets have later positions. A
position leads to the offset that lies by its column behind the start of its line, and this has that
position exactly if it comes before the start of the next line or the line is the last one. -/
theorem positions_and_offsets (text : String) :
    (∀ offset, (ofText text).position? offset = none ↔ text.utf8ByteSize < offset) ∧
    (∀ offset p, (ofText text).position? offset = some p →
      p.line = newlinesBefore text offset ∧
      (∃ start, AfterLastNewline text offset start ∧ start + p.column = offset) ∧
      (ofText text).offset? p = some offset) ∧
    (∀ a b p q, a < b → (ofText text).position? a = some p → (ofText text).position? b = some q →
      p.Before q) ∧
    (∀ p offset, (ofText text).offset? p = some offset ↔
      ∃ start, LineAt text p.line start ∧ start + p.column = offset ∧
        offset ≤ text.utf8ByteSize) ∧
    ∀ p offset, (ofText text).offset? p = some offset →
      ((ofText text).position? offset = some p ↔
        (∃ next, LineAt text (p.line + 1) next ∧ offset < next) ∨
          newlinesBefore text text.utf8ByteSize = p.line) := by
  refine ⟨fun offset => position?_eq_none_iff, fun offset p found => ?_,
    fun a b p q before => before_of_lt before, fun p offset => offset?_eq_some_iff,
    fun p offset found => ?_⟩
  · obtain ⟨inside, start, begins, le, rfl⟩ := exists_of_position? found
    have back : start + (offset - start) = offset := Nat.add_sub_cancel' le
    exact ⟨rfl, ⟨start, afterLastNewline begins le, back⟩,
      offset?_eq_some_iff.2 ⟨start, begins, back, inside⟩⟩
  · obtain ⟨start, begins, rfl, inside⟩ := offset?_eq_some_iff.1 found
    rw [position?_of_offset? found,
      newlinesBefore_eq_iff begins (Nat.le_add_right _ _) inside, or_comm]

end LineIndex

end TypedSvelte
