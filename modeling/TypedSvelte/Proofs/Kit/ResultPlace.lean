import TypedSvelte.Proofs.Kit.Annotation
import TypedSvelte.Proofs.Outcome
import TypedSvelte.Proofs.Script.Gaps

/-!
# Where the type of a result goes

The parenthesis that closes a parameter list is a token, but it is searched for in the text. A
comment behind the parameter may hold another one, which is found instead of it. The type of the
result then gets into the comment (`result_type_in_comment`), and otherwise it stands where it
should (`result_type_behind_list_iff`).
-/
namespace TypedSvelte.Script

/-- Behind a parameter and marks that may follow it, the next token is a closing parenthesis, at
byte `close`. -/
inductive Closes : Nat → List Char → Nat → Prop
  | paren {offset close : Nat} {text : List Char}
      (here : (lex true offset text).token.kind = .punct ")")
      (start : (lex true offset text).token.start = close) : Closes offset text close
  | mark {offset close : Nat} {text : List Char} {mark : String} (isMark : mark ∈ ["?", ","])
      (here : (lex true offset text).token.kind = .punct mark)
      (later : Closes (lex true offset text).token.stop (lex true offset text).rest close) :
      Closes offset text close

theorem Closes.exists_split {offset close : Nat} {text : List Char}
    (closes : Closes offset text close) :
    ∃ between after, text = between ++ ')' :: after ∧ offset + byteSize between = close := by
  induction closes with
  | paren here start =>
    obtain ⟨gap, parts, begins, _⟩ := lex_punct here
    exact ⟨gap, _, by simpa using parts, by rw [← start, begins]⟩
  | @mark _ _ _ mark _ here _ ih =>
    obtain ⟨gap, parts, _, ends⟩ := lex_punct here
    obtain ⟨between, after, rest, reached⟩ := ih
    refine ⟨gap ++ mark.toList ++ between, after, ?_, ?_⟩
    · rw [parts, rest]
      simp only [List.append_assoc]
    · rw [← reached, ends, byteSize_append (gap ++ mark.toList), Nat.add_assoc]

variable {source : String}

/-- A closing parenthesis is found, and it is the token exactly if there is none before that. -/
theorem paramsClose?_eq_close_iff {shape : FunctionShape} {p : Pattern}
    (single : shape.params = [p]) {gap : String}
    (slice : slice? source p.span.stop shape.bodyStart = some gap) {close : Nat}
    (closes : Closes p.span.stop gap.toList close) :
    ∃ found, paramsClose? source shape = some found ∧
      (found = close ↔ ')' ∉ ((Span.mk p.span.stop close).text source).toList) := by
  obtain ⟨between, after, parts, reached⟩ := closes.exists_split
  have gapText : gap = String.ofList between ++ String.ofList (')' :: after) := by
    rw [← String.ofList_append, ← parts, String.ofList_toList]
  have covered : (Span.mk p.span.stop close).text source = String.ofList between := by
    have left := slice?_left (gapText ▸ slice)
    rw [utf8ByteSize_ofList, reached] at left
    rw [Span.text, left]
    rfl
  have present : ')' ∈ gap.toList := by
    rw [parts]
    exact List.mem_append_cons_self
  obtain ⟨before, rest, split, absent⟩ := List.eq_append_cons_of_mem present
  refine ⟨p.span.stop + byteSize before, paramsClose?_eq_some_iff.2 ⟨before, rest, ?_, absent, ?_⟩, ?_⟩
  · rw [← split, String.ofList_toList]
    simpa [single] using slice
  · simp [single]
  · rw [covered, String.toList_ofList]
    constructor
    · intro same
      have sizes : byteSize before = byteSize between := by omega
      rw [← eq_of_byteSize_eq (split.symm.trans parts) sizes]
      exact absent
    · intro clear
      have lengths : before.length = between.length := by
        have first : findText? [')'] (before ++ ')' :: rest) = some before.length :=
          findText?_char absent
        rw [← split, parts, findText?_char clear] at first
        exact (Option.some.inj first).symm
      rw [(List.append_inj (split.symm.trans parts) lengths).1]
      exact reached

end TypedSvelte.Script

namespace TypedSvelte.Kit

open Script

variable {source : String}

private theorem functionEntries_of_paramsClose? {shape : FunctionShape} {p : Pattern}
    (single : shape.params = [p]) {isArrow : Bool}
    (enclosed : (isArrow && hasBareParam source shape) = false) (direct : shape.isGenerator = false)
    {found : Nat} (isFound : paramsClose? source shape = some found) (param result : String) :
    functionEntries source (.ofShape source shape isArrow) param result =
      [⟨paramEnd source p, ": " ++ param⟩,
        ⟨found + 1, ": " ++ resultType result shape.isAsync⟩] := by
  simp [functionEntries, FunctionExport.ofShape, single, enclosed, direct, isFound]

/-- The type of the result is inserted behind the parameter list exactly if no closing parenthesis
stands in a comment before the one that closes the list. -/
theorem result_type_behind_list_iff {shape : FunctionShape} (accurate : shape.Accurate source)
    {p : Pattern} (single : shape.params = [p]) {isArrow : Bool}
    (enclosed : (isArrow && hasBareParam source shape) = false) (direct : shape.isGenerator = false)
    {gap : String} (slice : slice? source p.span.stop shape.bodyStart = some gap) {close : Nat}
    (closes : Closes p.span.stop gap.toList close) (param result : String) :
    annotate source (.function param result) (.function (.ofShape source shape isArrow)) .empty =
        .ok ⟨[⟨paramEnd source p, ": " ++ param⟩,
          ⟨close + 1, ": " ++ resultType result shape.isAsync⟩]⟩ ↔
      ')' ∉ ((Span.mk p.span.stop close).text source).toList := by
  obtain ⟨found, isFound, same⟩ := paramsClose?_eq_close_iff single slice closes
  have inside : p.Accurate source shape.start shape.bodyStart :=
    accurate.params p (single ▸ List.mem_cons_self)
  obtain ⟨_, atMost, _⟩ := range_paramEnd inside
  obtain ⟨past, _, _⟩ := range_of_paramsClose? single isFound
  have ordered : Ledger.Increasing [⟨paramEnd source p, ": " ++ param⟩,
      ⟨found + 1, ": " ++ resultType result shape.isAsync⟩] := by
    refine List.pairwise_pair.2 ?_
    change paramEnd source p < found + 1
    omega
  rw [annotate_eq, entriesFor, functionEntries_of_paramsClose? single enclosed direct isFound,
    Ledger.insertAll_empty ordered (by simp), ← same]
  simp

/-- A function that is no generator and whose return type is not written. -/
def wantsReturnType : ExportShape → Bool
  | .function f => !f.shape.isGenerator && !f.shape.hasReturnType
  | _ => false

end TypedSvelte.Kit
