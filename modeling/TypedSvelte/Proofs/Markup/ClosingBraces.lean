import TypedSvelte.Proofs.Markup.Containment

/-!
# Closing braces

The search for the brace that closes an expression is always given all of the text that follows.
It answers with the end of `text` exactly if `text` is enclosed: it begins nothing that it does not
end, and its braces have their partners in it (`closingBrace?_append_iff`). What follows the brace
does not enter into this, so where an expression ends is decided by the text up to there
(`closing_brace_local`).
-/
namespace TypedSvelte.Markup

variable {c : Char} {text rest front : List Char} {ts us : List Token} {depth d offset n : Nat}

/-- The number of braces open behind a token, `depth` being open before it; none if it closes a
brace that is not open. -/
def bracesAfter (depth : Nat) : TokenKind → Option Nat
  | .opening .brace => some (depth + 1)
  | .closing .brace => if depth = 0 then none else some (depth - 1)
  | _ => some depth

/-- The number of braces open behind the tokens; none if one of them closes a brace that is not
open. -/
def bracesBehind (depth : Nat) (ts : List Token) : Option Nat :=
  ts.foldlM (fun depth t => bracesAfter depth t.kind) depth

def openingBraces (ts : List Token) : Nat := ts.countP (·.kind == .opening .brace)

def closingBraces (ts : List Token) : Nat := ts.countP (·.kind == .closing .brace)

theorem bracesBehind_cons (t : Token) :
    bracesBehind depth (t :: ts) = (bracesAfter depth t.kind).bind (bracesBehind · ts) :=
  List.foldlM_cons ..

theorem bracesBehind_append :
    bracesBehind depth (ts ++ us) = (bracesBehind depth ts).bind (bracesBehind · us) :=
  List.foldlM_append ..

/-- Openings and closings account for the number of open braces. -/
theorem bracesBehind_count (behind : bracesBehind depth ts = some d) :
    depth + openingBraces ts = d + closingBraces ts := by
  induction ts generalizing depth with
  | nil =>
    cases behind
    rfl
  | cons t ts ih =>
    rw [bracesBehind_cons] at behind
    obtain ⟨next, after, later⟩ := Option.bind_eq_some_iff.1 behind
    have balance := ih later
    simp only [openingBraces, closingBraces, List.countP_cons] at balance ⊢
    unfold bracesAfter at after
    split at after
    · rename_i kind
      cases after
      simp [kind]
      omega
    · rename_i kind
      split at after
      · cases after
      · cases after
        simp [kind]
        omega
    · rename_i notOpening notClosing
      cases after
      rw [if_neg (by simpa using notOpening), if_neg (by simpa using notClosing)]
      exact balance

/-- Braces that are open before the tokens stay open behind them. -/
theorem bracesBehind_add (behind : bracesBehind depth ts = some d) (more : Nat) :
    bracesBehind (depth + more) ts = some (d + more) := by
  induction ts generalizing depth with
  | nil =>
    cases behind
    rfl
  | cons t ts ih =>
    rw [bracesBehind_cons] at behind ⊢
    obtain ⟨next, after, others⟩ := Option.bind_eq_some_iff.1 behind
    have same : bracesAfter (depth + more) t.kind = some (next + more) := by
      unfold bracesAfter at after ⊢
      split at after
      · cases after
        exact congrArg some (Nat.add_right_comm ..)
      · split at after
        · cases after
        · cases after
          rw [if_neg (by omega), Nat.sub_add_comm (by omega)]
      · cases after
        rfl
    rw [same]
    exact ih others

/-- Among the first of the tokens there are no more closings than openings. -/
theorem closingBraces_le (behind : bracesBehind 0 ts = some d) (begins : us <+: ts) :
    closingBraces us ≤ openingBraces us := by
  obtain ⟨others, rfl⟩ := begins
  rw [bracesBehind_append] at behind
  obtain ⟨between, first, _⟩ := Option.bind_eq_some_iff.1 behind
  have balance := bracesBehind_count first
  omega

theorem closingBraceFrom_cons :
    closingBraceFrom depth (c :: rest) =
      match (lexeme c rest).1.elim (some depth) (bracesAfter depth) with
      | none => some 0
      | some depth =>
        (closingBraceFrom depth (rest.drop (lexeme c rest).2)).map
          (· + ((lexeme c rest).2 + 1)) := by
  rw [closingBraceFrom]
  generalize lexeme c rest = read
  obtain ⟨kind?, length⟩ := read
  dsimp only
  split
  · rfl
  · rfl
  · rfl
  · rename_i notOpening notLast notClosing
    have same : kind?.elim (some depth) (bracesAfter depth) = some depth := by
      cases kind? with
      | none => rfl
      | some kind =>
        unfold bracesAfter
        dsimp only [Option.elim]
        split
        · exact absurd rfl notOpening
        · cases depth with
          | zero => exact absurd rfl (notLast rfl)
          | succ depth => exact absurd rfl (notClosing depth rfl)
        · rfl
    rw [same]

private theorem bracesBehind_tokensFrom_cons :
    bracesBehind depth (tokensFrom offset (c :: rest)) =
      ((lexeme c rest).1.elim (some depth) (bracesAfter depth)).bind (bracesBehind ·
        (tokensFrom (offset + byteSize (c :: rest.take (lexeme c rest).2))
          (rest.drop (lexeme c rest).2))) := by
  rw [tokensFrom_cons, bracesBehind_append]
  cases (lexeme c rest).1 with
  | none => rfl
  | some kind =>
    rw [Option.map_some, Option.toList_some, bracesBehind_cons, Option.bind_assoc]
    rfl

/-- The search passes a text that closes no brace it has not opened. -/
theorem Kept.closingBraceFrom_append (kept : Kept rest text)
    (behind : bracesBehind depth (tokensFrom offset text) = some d) :
    closingBraceFrom depth (text ++ rest) =
      (closingBraceFrom d rest).map (· + text.length) := by
  induction kept generalizing depth offset with
  | nil =>
    rw [tokensFrom] at behind
    cases behind
    exact Option.map_id'.symm
  | @cons c cs same others ih =>
    rw [bracesBehind_tokensFrom_cons] at behind
    obtain ⟨next, after, later⟩ := Option.bind_eq_some_iff.1 behind
    have fits := length_lexeme_le c cs
    rw [List.cons_append, closingBraceFrom_cons, same, after]
    dsimp only
    rw [List.drop_append_of_le_length fits, ih later, Option.map_map, List.length_drop,
      List.length_cons]
    congr 1
    funext n
    dsimp only [Function.comp]
    omega

/-- The text begins nothing that only its end ends, and its braces have their partners in it. -/
def IsEnclosed (text : List Char) : Prop :=
  openEnded text = false ∧ bracesBehind 0 (tokens text) = some 0

instance (text : List Char) : Decidable (IsEnclosed text) := inferInstanceAs (Decidable (_ ∧ _))

/-- The search ends where a text ends exactly if the text closes all its braces and, before the
brace there, lets nothing go on. -/
theorem closingBraceFrom_append_iff (offset : Nat) :
    closingBraceFrom depth (text ++ '}' :: rest) = some text.length ↔
      openEnded text = false ∧ bracesBehind depth (tokensFrom offset text) = some 0 := by
  fun_induction openEnded text generalizing depth offset with
  | case1 =>
    have brace : lexeme '}' rest = (some (.closing .brace), 0) := rfl
    rw [List.nil_append, closingBraceFrom_cons, tokensFrom, brace]
    cases depth with
    | zero => exact iff_of_true rfl ⟨rfl, rfl⟩
    | succ depth =>
      refine iff_of_false (fun found => ?_) (fun closed => by cases closed.2)
      obtain ⟨m, _, size⟩ := Option.map_eq_some_iff.1 found
      exact Nat.succ_ne_zero m size
  | case2 c cs ih =>
    rw [List.cons_append, closingBraceFrom_cons, bracesBehind_tokensFrom_cons, List.length_cons]
    cases isUnfinished : unfinished c cs with
    | true =>
      have takes := @lexeme_takes c cs ['}'] rest isUnfinished
        (List.forall_mem_singleton.2 rfl)
      rw [List.singleton_append, List.length_singleton] at takes
      refine iff_of_false (fun found => ?_) (fun closed => by cases closed.1)
      split at found
      · cases found
      · obtain ⟨m, _, size⟩ := Option.map_eq_some_iff.1 found
        omega
    | false =>
      have mild : Mild ('}' :: rest) := by
        rintro d ⟨⟩
        rfl
      have same : lexeme c (cs ++ '}' :: rest) = lexeme c cs :=
        lexeme_append isUnfinished (.inr (.inr mild))
      have fits := length_lexeme_le c cs
      rw [same, Bool.false_or, List.drop_append_of_le_length fits]
      generalize (lexeme c cs).1.elim (some depth) (bracesAfter depth) = after
      cases after with
      | none => exact iff_of_false (fun found => by cases found) fun closed => by cases closed.2
      | some depth =>
        dsimp only [Option.bind_some]
        rw [← ih, List.length_drop, Option.map_eq_some_iff]
        constructor
        · rintro ⟨m, found, size⟩
          rw [found, Option.some_inj]
          omega
        · intro found
          exact ⟨_, found, by omega⟩

theorem closingBrace?_append_iff :
    closingBrace? (text ++ '}' :: rest) = some text.length ↔ IsEnclosed text :=
  closingBraceFrom_append_iff 0

/-- The text ends at the first brace that has an enclosed text before it. -/
theorem closingBrace?_eq_some_iff :
    closingBrace? text = some n ↔
      ∃ front rest, text = front ++ '}' :: rest ∧ IsEnclosed front ∧ front.length = n := by
  constructor
  · intro found
    obtain ⟨rest, ahead⟩ := begins_of_closingBraceFrom n found
    have parts : text = text.take n ++ '}' :: rest := by
      rw [← List.singleton_append, ahead, List.take_append_drop]
    have inside : n ≤ text.length := by
      have size := congrArg List.length ahead
      simp only [List.singleton_append, List.length_cons, List.length_drop] at size
      omega
    have size := List.length_take_of_le inside
    refine ⟨text.take n, rest, parts, (@closingBrace?_append_iff _ rest).1 ?_, size⟩
    rw [← parts, size, found]
  · rintro ⟨front, rest, rfl, enclosed, rfl⟩
    exact closingBrace?_append_iff.2 enclosed

/-- A text that closes no brace it has not opened has no end. -/
theorem closingBraceFrom_eq_none (offset : Nat)
    (behind : (bracesBehind depth (tokensFrom offset text)).isSome) :
    closingBraceFrom depth text = none := by
  fun_induction openEnded text generalizing depth offset with
  | case1 => rw [closingBraceFrom]
  | case2 c cs ih =>
    rw [bracesBehind_tokensFrom_cons] at behind
    rw [closingBraceFrom_cons]
    generalize (lexeme c cs).1.elim (some depth) (bracesAfter depth) = after at behind ⊢
    cases after with
    | none => cases behind
    | some depth => exact Option.map_eq_none_iff.2 (ih _ behind)

/-- A text that agrees with another on all bytes of that one goes on behind it. -/
theorem exists_append_of_bytes {first other : String}
    (same : ∀ j < first.utf8ByteSize, (bytes other)[j]? = (bytes first)[j]?) :
    ∃ after, other = first ++ after := by
  have begins : bytes first <+: bytes other := by
    refine List.prefix_iff_getElem?.2 fun j inside => ?_
    rw [length_bytes] at inside
    rw [same j inside, List.getElem?_eq_getElem]
  have extracted : other.toByteArray.extract 0 first.utf8ByteSize = first.toByteArray := by
    refine ByteArray.ext (Array.toList_inj.1 ?_)
    rw [ByteArray.data_extract, Array.toList_extract, List.extract_eq_take_drop, List.drop_zero,
      Nat.sub_zero, ← length_bytes]
    exact (List.prefix_iff_eq_take.1 begins).symm
  have cut : IsCut other first.utf8ByteSize := by
    refine String.Pos.Raw.isValid_iff_isValidUTF8_extract_zero.2 ⟨?_, ?_⟩
    · have size := begins.length_le
      rw [length_bytes, length_bytes] at size
      exact size
    · rw [extracted]
      exact first.isValidUTF8
  obtain ⟨before, after, rfl, size⟩ := isCut_iff.1 cut
  have equal : bytes before = bytes first := by
    refine (List.prefix_of_prefix_length_le ?_ begins ?_).eq_of_length ?_
    · exact ⟨bytes after, (bytes_append before after).symm⟩
    · rw [length_bytes, length_bytes, size]
    · rw [length_bytes, length_bytes, size]
  exact ⟨after, by rw [String.toByteArray_inj.1 (ByteArray.ext (Array.toList_inj.1 equal))]⟩

/-- The byte offset of the brace that closes an expression whose text is followed by it. -/
def closingBraceAt? (text : String) : Option Nat :=
  (closingBrace? text.toList).map fun n => byteSize (text.toList.take n)

theorem closingBraceAt?_eq_some_iff {text : String} {i : Nat} :
    closingBraceAt? text = some i ↔ ∃ front rest, text.toList = front ++ '}' :: rest ∧
      IsEnclosed front ∧ byteSize front = i := by
  unfold closingBraceAt?
  rw [Option.map_eq_some_iff]
  constructor
  · rintro ⟨n, found, rfl⟩
    obtain ⟨front, rest, parts, enclosed, rfl⟩ := closingBrace?_eq_some_iff.1 found
    exact ⟨front, rest, parts, enclosed, by rw [parts, List.take_left]⟩
  · rintro ⟨front, rest, parts, enclosed, rfl⟩
    exact ⟨_, closingBrace?_eq_some_iff.2 ⟨front, rest, parts, enclosed, rfl⟩, by
      rw [parts, List.take_left]⟩

/-- Where an expression ends depends on nothing behind its end: the end is a closing brace, the
braces before it are matched, there is no end before it, and every text with the same bytes up to
there has it. -/
theorem closing_brace_local {text : String} {i : Nat} (found : closingBraceAt? text = some i) :
    (bytes text)[i]? = some 125 ∧
      openingBraces ((tokens text.toList).filter (·.start < i)) =
        closingBraces ((tokens text.toList).filter (·.start < i)) ∧
      (∀ first, first <+: (tokens text.toList).filter (·.start < i) →
        closingBraces first ≤ openingBraces first) ∧
      (∃ front, slice? text 0 i = some front ∧ closingBraceAt? front = none) ∧
      ∀ other, (∀ j ≤ i, (bytes other)[j]? = (bytes text)[j]?) →
        closingBraceAt? other = some i := by
  obtain ⟨front, rest, parts, enclosed, rfl⟩ := closingBraceAt?_eq_some_iff.1 found
  have mild : Mild ('}' :: rest) := by
    rintro d ⟨⟩
    rfl
  have before : (tokens text.toList).filter (·.start < byteSize front) = tokens front := by
    unfold tokens
    rw [parts, (kept_of_mild enclosed.1 mild).tokensFrom_append, Nat.zero_add, List.filter_append,
      List.filter_eq_self.2, List.filter_eq_nil_iff.2, List.append_nil]
    · intro t member
      have start := le_start_of_mem member
      simp only [decide_eq_true_eq]
      omega
    · intro t member
      have start := start_lt_of_mem member
      simp only [decide_eq_true_eq]
      omega
  have whole : text = String.ofList front ++ String.ofList ('}' :: rest) := by
    rw [← String.ofList_append, ← parts, String.ofList_toList]
  rw [before]
  refine ⟨?_, ?_, fun first begins => closingBraces_le enclosed.2 begins, ?_,
    fun other same => ?_⟩
  · rw [whole, ← String.ofList_append, byte_after]
    rfl
  · have balance := bracesBehind_count enclosed.2
    omega
  · refine ⟨String.ofList front, ?_, ?_⟩
    · refine (slice?_eq_some_iff ..).2 ⟨"", String.ofList ('}' :: rest), ?_, rfl, ?_⟩
      · rw [String.empty_append, ← whole]
      · rw [Nat.zero_add, utf8ByteSize_ofList]
    · rw [closingBraceAt?, String.toList_ofList, closingBrace?,
        closingBraceFrom_eq_none 0 (Option.isSome_of_eq_some enclosed.2)]
      rfl
  · have upTo : text = String.ofList (front ++ ['}']) ++ String.ofList rest := by
      rw [← String.ofList_append, List.append_assoc, List.singleton_append, ← parts,
        String.ofList_toList]
    have size : (String.ofList (front ++ ['}'])).utf8ByteSize = byteSize front + 1 := by
      rw [utf8ByteSize_ofList, byteSize_append]
      rfl
    obtain ⟨after, rfl⟩ : ∃ after, other = String.ofList (front ++ ['}']) ++ after := by
      refine exists_append_of_bytes fun j inside => ?_
      rw [same j (by omega), upTo, byte_append_left _ _ inside]
    refine closingBraceAt?_eq_some_iff.2 ⟨front, after.toList, ?_, enclosed, rfl⟩
    simp

/-- The brace in the string closes nothing, whatever comes after the object. -/
theorem closing_brace_local_object : closingBraceAt? "f(\x7b a: '\x7d' \x7d)\x7d more" = some 13 ∧
    ∀ other, (∀ j ≤ 13, (bytes other)[j]? = (bytes "f(\x7b a: '\x7d' \x7d)\x7d more")[j]?) →
      closingBraceAt? other = some 13 := by
  have found : closingBraceAt? "f(\x7b a: '\x7d' \x7d)\x7d more" = some 13 := by
    decide +kernel
  exact ⟨found, (closing_brace_local found).2.2.2.2⟩

end TypedSvelte.Markup
