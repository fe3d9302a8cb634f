import TypedSvelte.Kit.Augment
import TypedSvelte.Proofs.Position.LedgerFilling
import TypedSvelte.Proofs.Script.Accuracy

/-!
# The texts of one annotation

`annotate` records a list of texts that depends on the export alone and not on the ledger
(`annotate_eq`). They lie in the head of the declaration, in strictly increasing order: the type of
the parameter within the parameter or at its end, that of the result behind it
(`tailored_entriesFor`).
-/
namespace TypedSvelte.Script

variable {source : String}

/-- The closing parenthesis that is found is the first one behind the parameters. -/
theorem paramsClose?_eq_some_iff {shape : FunctionShape} {close : Nat} :
    paramsClose? source shape = some close ↔
      ∃ before after, slice? source ((shape.params.getLast?.map (·.span.stop)).getD shape.start)
          shape.bodyStart = some (String.ofList (before ++ ')' :: after)) ∧ ')' ∉ before ∧
        (shape.params.getLast?.map (·.span.stop)).getD shape.start + byteSize before = close := by
  unfold paramsClose?
  simp only [Option.bind_eq_bind, Option.bind_eq_some_iff, findText?_char_eq_some_iff,
    Option.some.injEq]
  constructor
  · rintro ⟨between, slice, n, ⟨before, after, chars, absent, rfl⟩, rfl⟩
    refine ⟨before, after, ?_, absent, ?_⟩
    · rw [slice, ← chars, String.ofList_toList]
    · rw [chars, List.take_left]
  · rintro ⟨before, after, slice, absent, rfl⟩
    refine ⟨_, slice, before.length, ⟨before, after, String.toList_ofList, absent, rfl⟩, ?_⟩
    rw [String.toList_ofList, List.take_left]

theorem range_of_paramsClose? {shape : FunctionShape} {p : Pattern} (single : shape.params = [p])
    {close : Nat} (found : paramsClose? source shape = some close) :
    p.span.stop ≤ close ∧ close < shape.bodyStart ∧ IsCut source (close + 1) := by
  obtain ⟨before, after, slice, absent, rfl⟩ := paramsClose?_eq_some_iff.1 found
  simp only [single, List.getLast?_singleton, Option.map_some, Option.getD_some] at slice ⊢
  have size := stop_of_slice? slice
  rw [utf8ByteSize_ofList, byteSize_append] at size
  change _ = _ + (byteSize before + (1 + byteSize after)) at size
  have cut : IsCut (String.ofList (before ++ ')' :: after)) (byteSize before + 1) := by
    refine isCut_iff.2 ⟨String.ofList (before ++ [')']), String.ofList after, ?_, ?_⟩
    · rw [← String.ofList_append, List.append_assoc]
      rfl
    · rw [utf8ByteSize_ofList, byteSize_append]
      rfl
  refine ⟨Nat.le_add_right _ _, by omega, ?_⟩
  rw [Nat.add_assoc]
  exact cut.of_slice? slice

/-- The name of a variable that an item declares has a place. -/
theorem exists_place_of_mem_bound {item : Item} {name : String} {d : Declarator}
    (declares : (name, Bound.variable d) ∈ item.bound) : ∃ place, d.place? = some place := by
  have named (other : Declarator) (member : (name, Bound.variable d) ∈ other.bound) :
      ∃ place, d.place? = some place := by
    unfold Declarator.bound at member
    split at member
    · rename_i place text stop target
      cases List.mem_singleton.1 member
      exact ⟨place, by rw [Declarator.place?, target]⟩
    · obtain ⟨_, _, same⟩ := List.mem_map.1 member
      cases same
  unfold Item.bound at declares
  split at declares
  · rename_i declaration _
    cases declaration with
    | bindings declarators =>
      obtain ⟨other, _, member⟩ := List.mem_flatMap.1 declares
      exact named other member
    | function | classNamed | enum => cases List.mem_singleton.1 declares
    | disposable _ | typeOnly => cases declares
  · cases declares

/-- A variable is exported as its function, if it is initialised with one. -/
theorem shape_variable_cases (source : String) (d : Declarator) :
    (∃ shape isArrow, d.function? = some shape ∧
      ((Bound.variable d).shape source).1 = .function (.ofShape source shape isArrow)) ∨
    d.function? = none ∧ ((Bound.variable d).shape source).1 = .variable (some d) := by
  unfold Declarator.function? Bound.shape
  dsimp only
  cases d.initial.map Value.ungrouped with
  | none => exact Or.inr ⟨rfl, rfl⟩
  | some value =>
    cases value with
    | arrow shape => exact Or.inl ⟨shape, true, rfl, rfl⟩
    | function shape => exact Or.inl ⟨shape, false, rfl, rfl⟩
    | _ => exact Or.inr ⟨rfl, rfl⟩

end TypedSvelte.Script

namespace TypedSvelte.Kit

open Script

/-- The texts that type the only parameter and the result of a function. -/
def functionEntries (source : String) (f : FunctionExport) (param result : String) :
    List Ledger.Entry :=
  match f.shape.params with
  | [p] =>
    let typed := ": " ++ param
    let result? :=
      if f.shape.isGenerator then none else some (resultType result f.shape.isAsync)
    if f.bareParam then
      [⟨p.span.start, "("⟩,
        ⟨paramEnd source p, typed ++ ")" ++ (result?.map (": " ++ ·)).getD ""⟩]
    else
      ⟨paramEnd source p, typed⟩ ::
        match result?, f.paramsClose with
        | none, _ => []
        | some type, some close => [⟨close + 1, ": " ++ type⟩]
        | some type, none => [⟨f.shape.bodyStart, ": " ++ type ++ " "⟩]
  | _ => []

def entriesFor (source : String) (typing : Typing) (shape : ExportShape) : List Ledger.Entry :=
  match typing, shape with
  | .function param result, .function f => functionEntries source f param result
  | .variable type, .variable (some d) =>
    match d.initial, d.place? with
    | some _, some place => [⟨place.stop, ": " ++ type⟩]
    | _, _ => []
  | _, _ => []

private theorem annotateFunction_eq (source : String) (f : FunctionExport) (param result : String)
    (ledger : Ledger) : annotateFunction source f param result ledger =
      Ledger.insertAll (functionEntries source f param result) ledger := by
  unfold annotateFunction functionEntries
  rcases f.shape.params with _ | ⟨p, _ | ⟨_, _⟩⟩
  · rfl
  · dsimp only
    generalize (if f.shape.isGenerator then none
      else some (resultType result f.shape.isAsync)) = result?
    split
    · rw [Ledger.insertAll_cons]
      refine bind_congr fun opened => ?_
      rw [Ledger.insertAll_singleton]
    · rw [Ledger.insertAll_cons]
      refine bind_congr fun withParam => ?_
      rcases result? with _ | type
      · rfl
      · cases f.paramsClose with
        | none => simp only [Ledger.insertAll_singleton]
        | some close => simp only [Ledger.insertAll_singleton]
  · rfl

/-- An annotation records its texts one after the other. -/
theorem annotate_eq (source : String) (typing : Typing) (shape : ExportShape) (ledger : Ledger) :
    annotate source typing shape ledger =
      Ledger.insertAll (entriesFor source typing shape) ledger := by
  unfold annotate entriesFor
  rcases typing with ⟨param, result⟩ | type <;> rcases shape with f | _ | d
  case function.function => exact annotateFunction_eq _ _ _ _ _
  case variable.variable.some =>
    dsimp only
    cases d.initial with
    | none => rfl
    | some value =>
      cases d.place? with
      | none => rfl
      | some place => simp only [Ledger.insertAll_singleton]
  all_goals rfl

/-- A text that is inserted behind the begin of a head, at its end at the latest. -/
structure Fits (source : String) (head : Span) (entry : Ledger.Entry) : Prop where
  filled : entry.text ≠ ""
  cut : IsCut source entry.position
  above : head.start < entry.position
  within : entry.position ≤ head.stop

/-- Texts that are inserted into a head, each behind the ones before it. -/
structure Tailored (source : String) (head : Span) (entries : List Ledger.Entry) : Prop where
  ordered : Ledger.Increasing entries
  fits : ∀ entry ∈ entries, Fits source head entry

variable {source : String} {head : Span}

private theorem tailored_nil : Tailored source head [] where
  ordered := .nil
  fits := nofun

private theorem tailored_singleton {entry : Ledger.Entry} (fits : Fits source head entry) :
    Tailored source head [entry] where
  ordered := List.pairwise_singleton _ _
  fits := List.forall_mem_singleton.2 fits

private theorem tailored_pair {first second : Ledger.Entry} (fitsFirst : Fits source head first)
    (fitsSecond : Fits source head second) (before : first.position < second.position) :
    Tailored source head [first, second] where
  ordered := List.pairwise_pair.2 before
  fits := by simp [fitsFirst, fitsSecond]

private theorem annotation_ne_empty (type : String) : ": " ++ type ≠ "" := by
  simp

theorem paramEnd_cases (source : String) (p : Pattern) :
    (∃ target, p.defaulted? = some target ∧ paramEnd source p = target.span.stop) ∨
      paramEnd source p = p.span.stop ∨
      paramEnd source p = p.span.stop - 1 ∧
        slice? source (p.span.stop - 1) p.span.stop = some ")" := by
  have plain (unclosed : paramEnd source p =
      if followsParen source p.span.stop then p.span.stop - 1 else p.span.stop) :
      paramEnd source p = p.span.stop ∨ paramEnd source p = p.span.stop - 1 ∧
        slice? source (p.span.stop - 1) p.span.stop = some ")" := by
    rw [unclosed]
    split
    · rename_i follows
      unfold followsParen at follows
      simp only [Bool.and_eq_true, beq_iff_eq] at follows
      exact Or.inr ⟨rfl, follows.2⟩
    · exact Or.inl rfl
  cases p with
  | withDefault place target => exact Or.inl ⟨target, rfl, rfl⟩
  | name | array | object | rest | other => exact Or.inr (plain rfl)

/-- The type of a parameter is inserted within the parameter or at its end. -/
theorem range_paramEnd {low high : Nat} {p : Pattern} (accurate : p.Accurate source low high) :
    p.span.start < paramEnd source p ∧ paramEnd source p ≤ p.span.stop ∧
      IsCut source (paramEnd source p) := by
  have filled := accurate.filled
  rcases paramEnd_cases source p with ⟨target, defaulted, same⟩ | same | ⟨same, paren⟩
  · rw [same]
    exact accurate.target target defaulted
  · rw [same]
    exact ⟨filled, Nat.le_refl _, accurate.cuts.2⟩
  · have longer : p.span.start + 1 ≠ p.span.stop := by
      intro short
      apply accurate.opening
      rw [← short, Nat.add_sub_cancel] at paren
      exact paren
    rw [same]
    exact ⟨by omega, by omega, (cuts_of_slice? paren).1⟩

/-- Of a bare parameter, the opening parenthesis comes before it and the rest behind it. Otherwise
the type of the result comes behind the closing parenthesis or before the body. -/
theorem tailored_functionEntries {shape : FunctionShape} {isArrow : Bool} {low : Nat}
    (accurate : shape.Accurate source) (begins : low ≤ shape.start)
    (named : isArrow = true → low < shape.start) (param result : String) :
    Tailored source ⟨low, shape.bodyStart⟩
      (functionEntries source (.ofShape source shape isArrow) param result) := by
  unfold functionEntries
  dsimp only [FunctionExport.ofShape]
  rcases params : shape.params with _ | ⟨p, _ | ⟨_, _⟩⟩
  · exact tailored_nil
  · have single : p.Accurate source shape.start shape.bodyStart :=
      accurate.params p (params ▸ List.mem_cons_self)
    obtain ⟨behind, atMost, cut⟩ := range_paramEnd single
    obtain ⟨nested, ends⟩ := single.nested
    have fits {text : String} (filled : text ≠ "") :
        Fits source ⟨low, shape.bodyStart⟩ ⟨paramEnd source p, text⟩ := by
      refine ⟨filled, cut, ?_, ?_⟩
      · change low < paramEnd source p
        omega
      · change paramEnd source p ≤ shape.bodyStart
        omega
    dsimp only
    split
    · rename_i bare
      have arrow : isArrow = true := (Bool.and_eq_true _ _ ▸ bare).1
      refine tailored_pair ⟨by simp, single.cuts.1, ?_, ?_⟩ (fits (by simp)) behind
      · exact Nat.lt_of_lt_of_le (named arrow) nested
      · change p.span.start ≤ shape.bodyStart
        omega
    · have second {position : Nat} {text : String} (filled : text ≠ "")
          (later : p.span.stop < position) (inHead : position ≤ shape.bodyStart)
          (isCut : IsCut source position) :
          Tailored source ⟨low, shape.bodyStart⟩
            [⟨paramEnd source p, ": " ++ param⟩, ⟨position, text⟩] := by
        refine tailored_pair (fits (annotation_ne_empty param)) ⟨filled, isCut, ?_, inHead⟩ ?_
        · change low < position
          omega
        · change paramEnd source p < position
          omega
      split
      · exact tailored_singleton (fits (annotation_ne_empty param))
      · rename_i type close _ found
        obtain ⟨past, before, isCut⟩ := range_of_paramsClose? params found
        exact second (annotation_ne_empty type) (Nat.lt_succ_of_le past) before isCut
      · rename_i type _ _
        exact second (by simp) ends (Nat.le_refl _) accurate.bodyCut
  · exact tailored_nil

/-- The texts for an export lie in the head of its declaration. -/
theorem tailored_entriesFor {item : Item} {name : String} {bound : Bound}
    (declares : (name, bound) ∈ item.bound) (accurate : bound.Accurate source item.span)
    (typing : Typing) :
    entriesFor source typing (bound.shape source).1 = [] ∨
      ∃ head, bound.head? = some head ∧
        Tailored source head (entriesFor source typing (bound.shape source).1) := by
  rcases bound with shape | d | isTyped | _
  · rcases typing with ⟨param, result⟩ | type
    · refine Or.inr ⟨_, rfl, ?_⟩
      have declared (unnamed : false = true) : shape.start < shape.start :=
      absurd unnamed Bool.false_ne_true
      exact tailored_functionEntries (accurate.function shape rfl) (Nat.le_refl _) declared param
        result
    · exact Or.inl rfl
  · obtain ⟨place, named⟩ := exists_place_of_mem_bound declares
    obtain ⟨filled, cut, behind⟩ := accurate.name place named
    rcases shape_variable_cases source d with ⟨shape, isArrow, isFunction, same⟩ | ⟨isValue, same⟩
    · have head : (Bound.variable d).head? = some ⟨place.start, shape.bodyStart⟩ := by
        simp [Bound.head?, named, isFunction]
      have begins := behind shape isFunction
      rw [same]
      rcases typing with ⟨param, result⟩ | type
      · refine Or.inr ⟨_, head, ?_⟩
        exact tailored_functionEntries (accurate.function shape isFunction) (by omega)
          (fun _ => by omega) param result
      · exact Or.inl rfl
    · have head : (Bound.variable d).head? = some place := by
        simp [Bound.head?, named, isValue]
      rw [same]
      rcases typing with ⟨param, result⟩ | type
      · exact Or.inl rfl
      · refine Or.inr ⟨_, head, ?_⟩
        unfold entriesFor
        dsimp only
        rw [named]
        cases d.initial with
        | none => exact tailored_nil
        | some value =>
          exact tailored_singleton ⟨annotation_ne_empty type, cut, filled, Nat.le_refl _⟩
  · cases typing <;> exact Or.inl rfl
  · cases typing <;> exact Or.inl rfl

end TypedSvelte.Kit
