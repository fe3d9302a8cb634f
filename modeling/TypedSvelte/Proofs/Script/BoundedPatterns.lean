import TypedSvelte.Proofs.Script.Bounded
import TypedSvelte.Script.Grammar.Binding

/-!
# Patterns stay in the text
-/
namespace TypedSvelte.Script

variable {size : Nat}

mutual

/-- All offsets of an expression's cover lie within the first `size` bytes. -/
def Cover.Inside (size : Nat) : Cover → Prop
  | .name place _ | .other place _ => Within size place
  | .array place parts comma | .object place parts comma =>
    Within size place ∧ Cover.AllInside size parts ∧ Within size comma
  | .assigned place target => Within size place ∧ target.Inside size
  | .settled p => Within size p
  | .missing => True
  | .spread start target => start ≤ size ∧ target.Inside size
  | .shorthand place _ defaultStop => Within size place ∧ Within size defaultStop
  | .method start => start ≤ size

def Cover.AllInside (size : Nat) : List Cover → Prop
  | [] => True
  | cover :: covers => cover.Inside size ∧ Cover.AllInside size covers

end

instance : Located Cover := ⟨Cover.Inside⟩

namespace Cover

theorem allInside_iff {covers : List Cover} : AllInside size covers ↔ Within size covers := by
  induction covers with
  | nil => exact ⟨fun _ => within_nil, fun _ => True.intro⟩
  | cons cover covers ih =>
    exact (and_congr_right fun _ => ih).trans (within_cons (a := cover)).symm

section

variable {place : Span} {parts : List Cover} {comma : Option Nat} {text : String} {isTarget : Bool}
  {target : Cover} {p : Pattern} {start : Nat}

@[grind =]
theorem within_name : Within size (name place text) ↔ Within size place := .rfl

@[grind =]
theorem within_array : Within size (array place parts comma) ↔
    Within size place ∧ Within size parts ∧ Within size comma :=
  and_congr_right fun _ => and_congr_left fun _ => allInside_iff

@[grind =]
theorem within_object : Within size (object place parts comma) ↔
    Within size place ∧ Within size parts ∧ Within size comma :=
  and_congr_right fun _ => and_congr_left fun _ => allInside_iff

@[grind =]
theorem within_assigned : Within size (assigned place target) ↔
    Within size place ∧ Within size target := .rfl

@[grind =]
theorem within_settled : Within size (settled p) ↔ Within size p := .rfl

@[grind =]
theorem within_other : Within size (other place isTarget) ↔ Within size place := .rfl

@[grind .]
theorem within_missing : Within size missing := True.intro

@[grind =]
theorem within_spread : Within size (spread start target) ↔
    start ≤ size ∧ Within size target := .rfl

@[grind =]
theorem within_shorthand {defaultStop : Option Nat} :
    Within size (shorthand place text defaultStop) ↔
      Within size place ∧ Within size defaultStop := .rfl

@[grind =]
theorem within_method : Within size (method start) ↔ start ≤ size := .rfl

end

open Reader

mutual

/-- An expression is taken for a pattern at offsets of its own. -/
theorem bounded_pattern (declares : Bool) :
    (cover : Cover) → Within size cover → (cover.pattern declares).Bounded size
  | .name place text, within => by
    unfold pattern
    grind
  | .array place parts comma, within => by
    have lies := within_array.1 within
    have inner := bounded_elements declares lies.2.2 parts lies.2.1
    unfold pattern
    grind
  | .object place parts comma, within => by
    have lies := within_object.1 within
    have inner := bounded_properties declares lies.2.2 parts lies.2.1
    unfold pattern
    grind
  | .assigned place target, within => by
    have inner := bounded_pattern declares target within.2
    unfold pattern
    grind
  | .settled p, within => bounded_pure within
  | .other place isTarget, within => by
    unfold pattern
    grind
  | .shorthand place text none, within => by
    unfold pattern
    grind
  | .shorthand place text (some stop), within => by
    unfold pattern
    grind
  | .spread start target, within => bounded_pattern declares target within.2
  | .method start, within => bounded_throw within
  | .missing, _ => bounded_pure ⟨Nat.zero_le _, Nat.zero_le _⟩

private theorem bounded_elements (declares : Bool) {comma : Option Nat}
    (after : Within size comma) :
    (parts : List Cover) → Within size parts → (elements declares comma parts).Bounded size
  | [], _ => bounded_pure within_nil
  | part :: parts, within => by
    have lies := within_cons.1 within
    have inner := bounded_elements declares after parts lies.2
    have first := bounded_pattern declares part lies.1
    cases part with
    | spread start target =>
      have target := bounded_pattern declares target lies.1.2
      cases parts with
      | nil =>
        unfold elements
        grind
      | cons next parts =>
        unfold elements
        grind
    | missing => exact inner
    | _ =>
      unfold elements
      grind

private theorem bounded_properties (declares : Bool) {comma : Option Nat}
    (after : Within size comma) :
    (parts : List Cover) → Within size parts → (properties declares comma parts).Bounded size
  | [], _ => bounded_pure within_nil
  | part :: parts, within => by
    have lies := within_cons.1 within
    have inner := bounded_properties declares after parts lies.2
    have first := bounded_pattern declares part lies.1
    cases part with
    | spread start target =>
      have target := bounded_pattern declares target lies.1.2
      unfold properties
      grind
    | _ =>
      unfold properties
      grind

end

attribute [grind ←] bounded_pattern bounded_elements

@[grind ←]
theorem within_defaults {cover : Cover} (within : Within size cover) :
    Within size cover.defaults := by
  unfold defaults
  split
  · rename_i place parts comma
    refine within_filterMap (within_object.1 within).2.1 fun part lies => ?_
    grind
  · exact within_nil

end Cover

instance : Located Term where
  Within size term := Within size term.span ∧ Within size term.value ∧ Within size term.cover

@[grind =]
theorem within_term {term : Term} : Within size term ↔
    Within size term.span ∧ Within size term.value ∧ Within size term.cover := .rfl

namespace Term

open Reader

attribute [grind =] plain member ofName wrap

@[grind ←]
theorem bounded_target {term : Term} (within : Within size term) : term.target.Bounded size := by
  unfold target
  grind

end Term

/-- What the grammar answers to a phrase stays in a text of `size` bytes. -/
structure Grammar.Bounded (size : Nat) (g : Grammar) : Prop where
  typeExpression : (g.parse .typeExpression).Bounded size
  unconditionalType : (g.parse .unconditionalType).Bounded size
  binding : (g.parse .binding).Bounded size
  assignment : (g.parse .assignment).Bounded size
  assignmentTo : ∀ left, Within size left → (g.parse (.assignmentTo left)).Bounded size
  expression : (g.parse .expression).Bounded size
  joined : (g.parse .joined).Bounded size
  operators : ∀ left above, Within size left → (g.parse (.operators left above)).Bounded size
  object : (g.parse .object).Bounded size
  unary : (g.parse .unary).Bounded size
  access : (g.parse .access).Bounded size
  callee : (g.parse .callee).Bounded size
  qualified : ∀ left, Within size left → (g.parse (.qualified left)).Bounded size
  statement : ∀ listed, (g.parse (.statement listed)).Bounded size
  moduleItem : (g.parse .moduleItem).Bounded size

attribute [grind ←] Grammar.Bounded.typeExpression Grammar.Bounded.unconditionalType
  Grammar.Bounded.binding Grammar.Bounded.assignment Grammar.Bounded.assignmentTo
  Grammar.Bounded.expression Grammar.Bounded.joined Grammar.Bounded.operators
  Grammar.Bounded.object Grammar.Bounded.unary Grammar.Bounded.access Grammar.Bounded.callee
  Grammar.Bounded.qualified Grammar.Bounded.statement Grammar.Bounded.moduleItem

open Reader

@[grind ←]
theorem bounded_bracketed {α : Type} [Located α] {reader : Reader α}
    (inner : reader.Bounded size) : (bracketed reader).Bounded size := bounded_within inner

@[grind .]
theorem bounded_unreservedWord : unreservedWord.Bounded size := by
  unfold unreservedWord
  refine bounded_bind bounded_token fun t within => ?_
  split
  · refine bounded_bind bounded_read fun context _ => ?_
    extract_lets later admitted
    have laterBounded (u : Unit) : (later u).Bounded size := by
      unfold later
      refine bounded_bind (bounded_noteIf within.1) fun _ _ => ?_
      exact bounded_bind bounded_advance fun _ _ => bounded_pure (by grind)
    split
    · exact laterBounded ()
    · refine bounded_bind (bounded_noteIf within.1) fun _ _ => ?_
      split
      · exact bounded_bind bounded_fail fun _ _ => laterBounded ()
      · exact laterBounded ()
  · exact bounded_fail

@[grind .]
theorem bounded_identifier : identifier.Bounded size := by
  unfold identifier
  grind

@[grind .]
theorem bounded_declaredName : declaredName.Bounded size := by
  unfold declaredName
  grind

@[grind .]
theorem bounded_refuseLet : refuseLet.Bounded size := by
  unfold refuseLet
  grind

@[grind .]
theorem bounded_declaredName? : declaredName?.Bounded size := by
  unfold declaredName?
  grind

@[grind .]
theorem bounded_anyWord : anyWord.Bounded size := by
  unfold anyWord
  grind

@[grind .]
theorem bounded_anyIdentifier : anyIdentifier.Bounded size := by
  unfold anyIdentifier
  grind

instance : Located PropertyKey := ⟨fun size key => Within size key.span⟩

@[grind =]
theorem within_key {key : PropertyKey} : Within size key ↔ Within size key.span := .rfl

@[grind ←]
theorem PropertyKey.within_ofToken {t : Token} {name : Option String} {isWord : Bool}
    (within : Within size t) : Within size (ofToken t name isWord) := ⟨within.1, within.2.1⟩

variable {g : Grammar}

theorem bounded_propertyKey (bounded : g.Bounded size) : (propertyKey g).Bounded size := by
  unfold propertyKey
  refine bounded_bind bounded_token fun t within => ?_
  split
  · grind
  · grind
  · grind
  · refine bounded_bind (bounded_expect _) fun _ _ => bounded_bind bounded_here fun inner lies => ?_
    refine bounded_bind (bounded_bracketed ?_) fun _ _ => ?_
    · refine bounded_bind (bounded_discard bounded.assignment) fun _ _ => ?_
      refine bounded_bind bounded_isTyped fun _ _ => ?_
      refine bounded_bind (bounded_atPunct _) fun _ _ => ?_
      split
      · refine bounded_bind ?_ fun _ _ => ?_
        · refine bounded_repeatWhile ?_
          refine bounded_bind (bounded_eat _) fun _ _ => ?_
          split
          · refine bounded_bind (bounded_discard bounded.assignment) fun _ _ => ?_
            exact bounded_pure True.intro
          · exact bounded_pure True.intro
        · exact bounded_note lies
      · exact bounded_pure True.intro
    · grind

namespace Grammar

@[grind ←]
theorem within_annotate {typeStop : Option Nat} {p : Pattern} (typed : Within size typeStop)
    (within : Within size p) : Within size (annotate typeStop p) := by
  cases p <;> grind [annotate]

@[grind ←]
theorem bounded_checkRests {comma : Option Nat} {parts : List Pattern}
    (after : Within size comma) (within : Within size parts) :
    (checkRests comma parts).Bounded size := by
  fun_induction checkRests comma parts <;> grind

@[grind .]
theorem bounded_optionalPattern : optionalPattern.Bounded size := by
  unfold optionalPattern
  grind

@[grind .]
theorem bounded_accessWord : accessWord.Bounded size := by
  unfold accessWord
  grind

variable (bounded : g.Bounded size)

include bounded

theorem bounded_typeAfterColon? : (typeAfterColon? g).Bounded size := by
  unfold typeAfterColon?
  grind

private theorem bounded_defaulted {start : Nat} {target : Pattern} (begun : start ≤ size)
    (within : Within size target) : (defaulted g start target).Bounded size := by
  unfold defaulted
  grind

private theorem bounded_element : (element g).Bounded size := by
  unfold element
  have defaulted := @bounded_defaulted size g bounded
  grind

private theorem bounded_arrayPattern : (arrayPattern g).Bounded size := by
  unfold arrayPattern
  refine bounded_bind bounded_here fun start begun => bounded_bind (bounded_expect _) fun _ _ => ?_
  refine bounded_bind (bounded_iterate within_nil fun done within => ?_) fun elements lies => ?_
  · refine bounded_bind (bounded_atPunct _) fun _ _ => ?_
    split
    · exact bounded_pure within_none
    · refine bounded_bind (bounded_eat _) fun _ _ => ?_
      split
      · exact bounded_pure (within_some.2 within)
      · refine bounded_bind ?_ fun _ _ => ?_
        · grind
        · refine bounded_bind bounded_here fun first inside => ?_
          refine bounded_bind (bounded_eat _) fun isRest _ => ?_
          extract_lets later
          have laterBounded (found : Pattern) (within : Within size found) :
              (later found).Bounded size := by
            unfold later
            refine bounded_bind (bounded_spanFrom inside) fun place within => ?_
            extract_lets p onward
            have pWithin : Within size p := by grind
            have onwardBounded (u : Unit) : (onward u).Bounded size := by
              unfold onward
              exact bounded_pure (by grind)
            refine bounded_bind (bounded_atPunct _) fun _ _ => ?_
            split
            · exact onwardBounded ()
            · refine bounded_bind bounded_here fun _ inside => ?_
              refine bounded_bind (bounded_expect _) fun _ _ => ?_
              refine bounded_bind (bounded_atPunct _) fun _ _ => ?_
              exact bounded_bind (bounded_noteIf inside) fun _ _ => onwardBounded ()
          split
          · exact bounded_bind bounded.binding fun target within => laterBounded _ within
          · refine bounded_bind (bounded_element bounded) fun _ within => ?_
            exact laterBounded _ within
  · refine bounded_bind (bounded_expect _) fun _ _ => ?_
    refine bounded_bind bounded_optionalPattern fun _ _ => ?_
    exact bounded_bind (bounded_spanFrom begun) fun found within => bounded_pure (by grind)

private theorem bounded_propertyPattern : (propertyPattern g).Bounded size := by
  unfold propertyPattern
  refine bounded_bind bounded_here fun start inside => ?_
  refine bounded_bind (bounded_eat _) fun _ _ => ?_
  split
  · refine bounded_bind bounded.binding fun target within => ?_
    exact bounded_bind (bounded_spanFrom inside) fun found within => bounded_pure (by grind)
  · refine bounded_bind (bounded_propertyKey bounded) fun key within => ?_
    refine bounded_bind (bounded_eat _) fun _ _ => ?_
    split
    · exact bounded_element bounded
    · split
      · refine bounded_bind bounded_identify fun _ _ => ?_
        exact bounded_defaulted bounded inside (by grind)
      · exact bounded_fail

private theorem bounded_objectPattern : (objectPattern g).Bounded size := by
  unfold objectPattern
  refine bounded_bind bounded_here fun start inside => ?_
  refine bounded_bind (bounded_expect _) fun _ _ => ?_
  refine bounded_bind (bounded_commaListEnd (bounded_propertyPattern bounded))
    fun found within => ?_
  split
  · refine bounded_bind (bounded_checkRests within.2 within.1) fun _ _ => ?_
    refine bounded_bind bounded_optionalPattern fun _ _ => ?_
    exact bounded_bind (bounded_spanFrom inside) fun found within => bounded_pure (by grind)

theorem bounded_binding : (binding g).Bounded size := by
  unfold binding
  grind [bounded_arrayPattern bounded, bounded_objectPattern bounded]

theorem bounded_parameter : (parameter g).Bounded size := by
  unfold parameter
  refine bounded_bind bounded_here fun start inside => ?_
  refine bounded_bind bounded_accessWord fun modified _ => ?_
  refine bounded_bind bounded.binding fun target within => ?_
  refine bounded_bind (bounded_eatTyped _) fun isOptional _ => ?_
  refine bounded_bind (bounded_typeAfterColon? bounded) fun found within => ?_
  extract_lets target
  have targetWithin : Within size target := by grind
  refine bounded_bind (bounded_atPunct _) fun _ _ => ?_
  refine bounded_bind (bounded_noteIf (Pattern.start_le_of_within targetWithin)) fun _ _ => ?_
  refine bounded_bind (bounded_defaulted bounded inside targetWithin) fun _ within => ?_
  extract_lets later
  have laterBounded (u : Unit) : (later u).Bounded size := by
    unfold later
    exact bounded_bind (bounded_noteIf inside) fun _ _ => bounded_pure within
  split
  · refine bounded_bind bounded_read fun _ _ => ?_
    exact bounded_bind (bounded_noteIf inside) fun _ _ => laterBounded ()
  · exact laterBounded ()

private theorem bounded_restParameter {start : Nat} (begun : start ≤ size) :
    (restParameter g start).Bounded size := by
  unfold restParameter
  refine bounded_bind bounded.binding fun target within => ?_
  refine bounded_bind (bounded_eat _) fun _ _ => ?_
  extract_lets later
  have laterBounded (u : Unit) : (later u).Bounded size := by
    unfold later
    refine bounded_bind (bounded_typeAfterColon? bounded) fun typeStop within => ?_
    refine bounded_bind (bounded_spanFrom begun) fun found within => ?_
    extract_lets p onward
    have pWithin : Within size p := by grind
    have onwardBounded (u : Unit) : (onward u).Bounded size := by
      unfold onward
      exact bounded_pure pWithin
    refine bounded_bind bounded_isTyped fun _ _ => ?_
    split
    · refine bounded_bind bounded_here fun _ inside => ?_
      refine bounded_bind (bounded_eat _) fun _ _ => ?_
      exact bounded_bind (bounded_noteIf inside) fun _ _ => onwardBounded ()
    · exact onwardBounded ()
  split
  · refine bounded_bind (bounded_discard (bounded_bracketed bounded.assignment)) fun _ _ => ?_
    refine bounded_bind (bounded_note (Pattern.start_le_of_within within)) fun _ _ => ?_
    exact laterBounded ()
  · exact laterBounded ()

omit bounded in
@[grind ←]
theorem bounded_parameterList {α : Type} [Located α] {single : Reader α} {rest : Nat → Reader α}
    (one : single.Bounded size) (last : ∀ start ≤ size, (rest start).Bounded size) :
    (parameterList single rest).Bounded size := by
  unfold parameterList
  refine bounded_map (bounded_iterate ?_ fun done within => ?_) fun done within => ?_
  · grind
  · refine bounded_bind (bounded_atPunct _) fun _ _ => ?_
    split
    · exact bounded_pure within_none
    · refine bounded_bind ?_ fun _ _ => ?_
      · grind
      · refine bounded_bind bounded_here fun start inside => ?_
        refine bounded_bind (bounded_eat _) fun isRest _ => ?_
        extract_lets later
        have laterBounded (found : α) (within : Within size found) :
            (later found).Bounded size := by
          unfold later
          refine bounded_bind (bounded_atPunct _) fun _ _ => ?_
          extract_lets onward
          have onwardBounded (u : Unit) : (onward u).Bounded size := by
            unfold onward
            exact bounded_pure (by grind)
          split
          · exact onwardBounded ()
          · refine bounded_bind bounded_here fun _ inside => ?_
            refine bounded_bind (bounded_expect _) fun _ _ => ?_
            refine bounded_bind (bounded_atPunct _) fun _ _ => ?_
            exact bounded_bind (bounded_noteIf inside) fun _ _ => onwardBounded ()
        split
        · exact bounded_bind (last _ inside) fun a within => laterBounded _ within
        · exact bounded_bind one fun _ within => laterBounded _ within
  · grind

theorem bounded_parameters : (parameters g).Bounded size := by
  unfold parameters
  have restParameter := @bounded_restParameter size g bounded
  grind [bounded_parameter bounded]

end Grammar

end TypedSvelte.Script
