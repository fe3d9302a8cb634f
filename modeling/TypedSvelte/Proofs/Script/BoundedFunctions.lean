import TypedSvelte.Proofs.Script.BoundedTypes
import TypedSvelte.Script.Grammar.Callable

/-!
# Functions and classes stay in the text
-/
namespace TypedSvelte.Script.Grammar

open Reader

variable {size : Nat} {g : Grammar}

instance : Located ParameterRule where
  Within size
    | .free => True
    | .getter offset | .setter offset => offset ≤ size

@[grind .]
theorem within_free : Within size ParameterRule.free := True.intro

@[grind =]
theorem within_getter {offset : Nat} :
    Within size (ParameterRule.getter offset) ↔ offset ≤ size := .rfl

@[grind =]
theorem within_setter {offset : Nat} :
    Within size (ParameterRule.setter offset) ↔ offset ≤ size := .rfl

instance : Located FunctionMarks := ⟨fun size marks => Within size marks.rule⟩

@[grind =]
theorem within_marks {marks : FunctionMarks} : Within size marks ↔ Within size marks.rule := .rfl

@[grind .]
theorem within_unmarked : Within size FunctionMarks.none := True.intro

instance : Located Prologue := ⟨fun size prologue => Within size prologue.strict⟩

@[grind =]
theorem within_prologue {prologue : Prologue} :
    Within size prologue ↔ Within size prologue.strict := .rfl

@[grind ←]
theorem within_add {prologue : Prologue} {first : Token} {statement : Statement}
    (earlier : Within size prologue) (within : Within size first) :
    Within size (prologue.add first statement) := by
  unfold Prologue.add
  grind

instance : Located MemberHead where
  Within size head := head.start ≤ size ∧ Within size head.declaredAt ∧ Within size head.staticAt ∧
    Within size head.modifierAt

@[grind =]
theorem within_head {head : MemberHead} : Within size head ↔
    head.start ≤ size ∧ Within size head.declaredAt ∧ Within size head.staticAt ∧
      Within size head.modifierAt := .rfl

@[grind ←]
theorem within_head_add {head : MemberHead} {extending : Bool} {word : String} {offset : Nat}
    (within : Within size head) (inside : offset ≤ size) :
    Within size (head.add extending word offset).1 := by
  unfold MemberHead.add
  grind

instance : Located Member := ⟨fun _ _ => True⟩
instance : Unplaced Member := ⟨fun _ _ => True.intro⟩

instance : Located (Except Member MemberHead) where
  Within size
    | .error _ => True
    | .ok head => Within size head

@[grind .]
theorem within_error {member : Member} : Within size (.error member : Except Member MemberHead) :=
  True.intro

@[grind =]
theorem within_ok {head : MemberHead} :
    Within size (.ok head : Except Member MemberHead) ↔ Within size head := .rfl

instance : Located ConstructorParameter where
  Within size param := param.start ≤ size ∧ Within size param.pattern

@[grind =]
theorem within_constructorParameter {param : ConstructorParameter} :
    Within size param ↔ param.start ≤ size ∧ Within size param.pattern := .rfl

@[grind ←]
theorem bounded_ParameterRule_check {rule : ParameterRule} {params : List Pattern}
    (ruled : Within size rule) (within : Within size params) :
    (ParameterRule.check rule params).Bounded size := by
  unfold ParameterRule.check
  grind

@[grind ←]
theorem bounded_refuseDefaults {params : List Pattern} (within : Within size params) :
    (refuseDefaults params).Bounded size := by
  unfold refuseDefaults
  grind

@[grind .]
theorem bounded_atMethod : atMethod.Bounded size := by
  unfold atMethod
  grind

@[grind .]
theorem bounded_atField (mayBreak : Bool) : (atField mayBreak).Bounded size := by
  unfold atField
  grind

@[grind .]
theorem bounded_memberAccess : memberAccess.Bounded size := by
  unfold memberAccess
  grind

@[grind ←]
theorem bounded_memberModifier? (extending : Bool) {head : MemberHead}
    (within : Within size head) :
    (memberModifier? extending head).Bounded size := by
  unfold memberModifier?
  refine bounded_bind bounded_isTyped fun _ _ => ?_
  split
  · refine bounded_bind (bounded_atWord _) fun _ _ => ?_
    refine bounded_bind bounded_peek fun t within => ?_
    split
    · exact bounded_pure within_none
    · refine bounded_bind (bounded_modifier? _) fun found within => ?_
      split
      · exact bounded_pure within_none
      · split
        · exact bounded_bind (bounded_noteIf (by grind)) fun _ _ => bounded_pure (by grind)
  · exact bounded_pure within_none

@[grind ←]
theorem bounded_lateAccessor {head : MemberHead} (within : Within size head) :
    (lateAccessor head).Bounded size := by
  unfold lateAccessor
  grind

@[grind .]
theorem bounded_atAncestorsEnd : atAncestorsEnd.Bounded size := by
  unfold atAncestorsEnd
  grind

@[grind .]
theorem bounded_misplacedWord (word : String) : (misplacedWord word).Bounded size := by
  unfold misplacedWord
  grind

@[grind .]
theorem bounded_className (named : Bool) : (className named).Bounded size := by
  unfold className
  grind

variable (bounded : g.Bounded size)

include bounded

private theorem bounded_statements : (statements g).Bounded size := by
  unfold statements
  grind

theorem bounded_block : (block g).Bounded size := by
  unfold block
  grind [bounded_statements bounded]

theorem bounded_functionBlock (params : List Pattern) : (functionBlock g params).Bounded size := by
  unfold functionBlock
  grind [bounded_block bounded]

private theorem bounded_functionBody (marks : FunctionMarks) (params : List Pattern) :
    (functionBody g marks params).Bounded size := by
  unfold functionBody
  grind [bounded_functionBlock bounded params]

theorem bounded_functionTail {start : Nat} {marks : FunctionMarks} (begun : start ≤ size)
    (marked : Within size marks) :
    (functionTail g start marks).Bounded size := by
  unfold functionTail
  refine bounded_within ?_
  refine bounded_bind (bounded_typeParameters? bounded _) fun _ _ => ?_
  refine bounded_bind (bounded_expect _) fun _ _ => ?_
  refine bounded_bind ?_ fun params within => ?_
  · refine bounded_within ?_
    refine bounded_bind (bounded_parameters bounded) fun params within => ?_
    refine bounded_bind ?_ fun _ _ => ?_
    · grind
    · exact bounded_pure within
  · refine bounded_bind (bounded_expect _) fun _ _ => ?_
    refine bounded_bind (bounded_returnType? bounded) fun hasReturnType _ => ?_
    refine bounded_bind bounded_here fun bodyStart inside => ?_
    refine bounded_bind (bounded_functionBody bounded _ _) fun hasBody _ => ?_
    extract_lets later onward
    have laterBounded (found : Nat) (within : Within size found) : (later found).Bounded size := by
      unfold later
      exact bounded_pure (by grind)
    have onwardBounded (u : Unit) : (onward u).Bounded size := by
      unfold onward
      split
      · exact bounded_bind (bounded_pure inside) fun bodyStart inside => laterBounded _ inside
      · exact bounded_bind bounded_behind fun _ inside => laterBounded _ inside
    split
    · exact onwardBounded ()
    · exact bounded_bind (bounded_refuseDefaults within) fun _ _ => onwardBounded ()

theorem bounded_functionFrom {start : Nat} (isAsync : Bool) (named : Bool) (begun : start ≤ size) :
    (functionFrom g start isAsync named).Bounded size := by
  unfold functionFrom
  refine bounded_bind (bounded_expectWord _) fun _ _ => ?_
  refine bounded_bind (bounded_eat _) fun isGenerator _ => ?_
  extract_lets later
  have laterBounded (found : Option String) (within : Within size found) :
      (later found).Bounded size := by
    unfold later
    refine bounded_bind (bounded_within (bounded_functionTail bounded begun True.intro))
      fun shape within => ?_
    exact bounded_pure (by grind)
  split
  · refine bounded_bind bounded_declaredName fun found within => ?_
    exact bounded_bind (bounded_pure (by grind)) fun name within => laterBounded _ within
  · exact bounded_bind bounded_declaredName? fun _ within => laterBounded _ within

private theorem bounded_memberKeyword : (memberKeyword g).Bounded size := by
  unfold memberKeyword
  refine bounded_bind bounded_token fun t within => ?_
  split
  · have key (name : Option String) : Within size (PropertyKey.ofToken t name false) :=
      PropertyKey.within_ofToken within
    grind [bounded_propertyKey bounded]
  · exact bounded_propertyKey bounded

private theorem bounded_methodTail {head : MemberHead} (key : PropertyKey) {marks : FunctionMarks}
    (within : Within size head) (marked : Within size marks) :
    (methodTail g head key marks).Bounded size := by
  unfold methodTail
  have functionTail := @bounded_functionTail size g bounded
  grind

private theorem bounded_fieldTail {head : MemberHead} {key : PropertyKey} (isOptional : Bool)
    (within : Within size head) (keyed : Within size key) :
    (fieldTail g head key isOptional).Bounded size := by
  unfold fieldTail
  extract_lets later onward
  have laterBounded (u : Unit) : (later u).Bounded size := by
    unfold later
    refine bounded_bind (bounded_discard (bounded_typeAfterColon? bounded)) fun _ _ => ?_
    refine bounded_bind (bounded_eat _) fun _ _ => ?_
    extract_lets beyond further
    have beyondBounded (u : Unit) : (beyond u).Bounded size := by
      unfold beyond
      split
      · exact bounded_pure True.intro
      · exact bounded_bind (bounded_noteIf within.1) fun _ _ => bounded_pure True.intro
    have furtherBounded (u : Unit) : (further u).Bounded size := by
      unfold further
      refine bounded_bind bounded_semicolon fun _ _ => ?_
      split
      · exact beyondBounded ()
      · refine bounded_bind bounded_here fun _ inside => ?_
        exact bounded_bind (bounded_note inside) fun _ _ => beyondBounded ()
    split
    · refine bounded_bind (bounded_discard (bounded_within (bounded_bracketed bounded.assignment)))
        fun _ _ => ?_
      exact furtherBounded ()
    · exact furtherBounded ()
  have onwardBounded (u : Unit) : (onward u).Bounded size := by
    unfold onward
    refine bounded_bind (bounded_noteIf keyed.1) fun _ _ => ?_
    refine bounded_bind bounded_isTyped fun _ _ => ?_
    split
    · exact bounded_bind (bounded_discard (bounded_eat _)) fun _ _ => laterBounded ()
    · exact laterBounded ()
  split
  · exact bounded_bind (bounded_throw keyed.1) fun _ _ => onwardBounded ()
  · exact onwardBounded ()

private theorem bounded_memberNamed? {head : MemberHead} {word : Token} (mayBreak : Bool)
    (within : Within size head) (spelled : Within size word) :
    (memberNamed? g head word mayBreak).Bounded size := by
  unfold memberNamed?
  have fieldTail := @bounded_fieldTail size g bounded
  have methodTail := @bounded_methodTail size g bounded
  grind

private theorem bounded_constructorParameter : (constructorParameter g).Bounded size := by
  unfold constructorParameter
  refine bounded_bind bounded_here fun start inside => ?_
  refine bounded_bind bounded_memberAccess fun hasAccess _ => ?_
  refine bounded_bind bounded_isTyped fun _ _ => ?_
  extract_lets later
  have laterBounded (found : Bool) (within : Within size found) : (later found).Bounded size := by
    unfold later
    refine bounded_bind bounded_isTyped fun _ _ => ?_
    extract_lets onward
    have onwardBounded (found : Bool) (within : Within size found) :
        (onward found).Bounded size := by
      unfold onward
      refine bounded_bind (bounded_parameter bounded) fun pattern within => ?_
      extract_lets isProperty beyond
      have beyondBounded (u : Unit) : (beyond u).Bounded size := by
        unfold beyond
        exact bounded_pure (by grind)
      split
      · exact beyondBounded ()
      · exact beyondBounded ()
      · split
        · refine bounded_bind (bounded_throw (Pattern.start_le_of_within within)) fun _ _ => ?_
          exact beyondBounded ()
        · exact beyondBounded ()
    split
    · refine bounded_bind (bounded_modifier? _) fun _ _ => ?_
      refine bounded_bind (bounded_pure True.intro) fun isReadonly _ => ?_
      exact onwardBounded _ True.intro
    · refine bounded_bind (bounded_pure True.intro) fun _ _ => ?_
      exact onwardBounded _ True.intro
  split
  · refine bounded_bind (bounded_modifier? _) fun _ _ => ?_
    exact bounded_bind (bounded_pure True.intro) fun isOverride _ => laterBounded _ True.intro
  · exact bounded_bind (bounded_pure True.intro) fun _ _ => laterBounded _ True.intro

private theorem bounded_constructorRest {start : Nat} (begun : start ≤ size) :
    (constructorRest g start).Bounded size := by
  unfold constructorRest
  grind [bounded_typeAfterColon? bounded]

private theorem bounded_constructorTypes : (constructorTypes g).Bounded size := by
  unfold constructorTypes
  have typeParameters := bounded_typeParameters bounded
  grind

private theorem bounded_constructorTail {head : MemberHead} (within : Within size head) :
    (constructorTail g head).Bounded size := by
  unfold constructorTail
  have constructorRest := @bounded_constructorRest size g bounded
  have functionBody := bounded_functionBody bounded
  refine bounded_bind (bounded_noteIf within.1) fun _ _ => ?_
  refine bounded_bind (bounded_constructorTypes bounded) fun _ _ => ?_
  refine bounded_bind (bounded_expect _) fun _ _ => ?_
  have parameter := bounded_constructorParameter bounded
  refine bounded_bind (bounded_bracketed (bounded_parameterList parameter (by grind)))
    fun params within => ?_
  refine bounded_bind (bounded_expect _) fun _ _ => ?_
  refine bounded_bind (bounded_eatTyped _) fun _ _ => ?_
  extract_lets patterns later
  have patternsWithin : Within size patterns := by grind
  have laterBounded (u : Unit) : (later u).Bounded size := by
    unfold later
    refine bounded_bind (bounded_functionBody bounded _ _) fun hasBody _ => ?_
    extract_lets onward beyond
    have onwardBounded (u : Unit) : (onward u).Bounded size := by
      unfold onward
      exact bounded_pure True.intro
    have beyondBounded (u : Unit) : (beyond u).Bounded size := by
      unfold beyond
      refine bounded_bind ?_ fun _ _ => ?_
      · grind
      · split
        · refine bounded_bind ?_ fun _ _ => ?_
          · grind
          · exact onwardBounded ()
        · exact onwardBounded ()
    split
    · exact beyondBounded ()
    · refine bounded_bind (bounded_forM (by grind) within) fun _ _ => ?_
      exact bounded_bind (bounded_refuseDefaults patternsWithin) fun _ _ => beyondBounded ()
  split
  · refine bounded_bind bounded_here fun _ inside => ?_
    refine bounded_bind bounded.typeExpression fun _ _ => ?_
    exact bounded_bind (bounded_note inside) fun _ _ => laterBounded ()
  · exact laterBounded ()

private theorem bounded_staticBlock : (staticBlock g).Bounded size := by
  unfold staticBlock
  grind [bounded_block bounded]

private theorem bounded_asyncMember {head : MemberHead} (within : Within size head) :
    (asyncMember g head).Bounded size := by
  unfold asyncMember
  refine bounded_bind bounded_isTyped fun _ _ => ?_
  extract_lets later
  have laterBounded (u : Unit) : (later u).Bounded size := by
    unfold later
    refine bounded_bind (bounded_eat _) fun isGenerator _ => ?_
    refine bounded_bind (bounded_memberKeyword bounded) fun key within => ?_
    extract_lets onward beyond
    have onwardBounded (u : Unit) : (onward u).Bounded size := by
      unfold onward
      refine bounded_bind (bounded_discard (bounded_eatTyped _)) fun _ _ => ?_
      exact bounded_methodTail bounded _ (by grind) True.intro
    have beyondBounded (u : Unit) : (beyond u).Bounded size := by
      unfold beyond
      split
      · exact bounded_bind (bounded_throw (by grind)) fun _ _ => onwardBounded ()
      · exact onwardBounded ()
    split
    · exact bounded_bind (bounded_throw within.1) fun _ _ => beyondBounded ()
    · exact beyondBounded ()
  split
  · refine bounded_bind (bounded_modifier? _) fun found within => ?_
    split
    · exact bounded_bind (bounded_note (by grind)) fun _ _ => laterBounded ()
    · exact laterBounded ()
  · exact laterBounded ()

private theorem bounded_accessorMember {head : MemberHead} (isGetter : Bool) {offset : Nat}
    (within : Within size head) (inside : offset ≤ size) :
    (accessorMember g head isGetter offset).Bounded size := by
  unfold accessorMember
  have methodTail := @bounded_methodTail size g bounded
  grind [bounded_memberKeyword bounded]

private theorem bounded_keyedMember {head : MemberHead} (within : Within size head) :
    (keyedMember g head).Bounded size := by
  unfold keyedMember
  have accessorMember := @bounded_accessorMember size g bounded
  have asyncMember := @bounded_asyncMember size g bounded
  have constructorTail := @bounded_constructorTail size g bounded
  have fieldTail := @bounded_fieldTail size g bounded
  have methodTail := @bounded_methodTail size g bounded
  grind [bounded_memberKeyword bounded]

private theorem bounded_modifiedMember (extending : Bool) {head : MemberHead}
    (within : Within size head) :
    (modifiedMember g extending head).Bounded size := by
  unfold modifiedMember
  refine bounded_bind (bounded_iterate within (by grind)) fun head within => ?_
  refine bounded_bind (bounded_lateAccessor within) fun head within => ?_
  refine bounded_bind (bounded_atPunct _) fun _ _ => ?_
  split
  · refine bounded_bind ?_ fun _ _ => ?_
    · grind
    · refine bounded_bind bounded_here fun _ inside => ?_
      exact bounded_bind (bounded_noteIf inside) fun _ _ => bounded_staticBlock bounded
  · refine bounded_bind (bounded_atWord _) fun _ _ => ?_
    refine bounded_bind bounded_peek fun t within => ?_
    split
    · refine bounded_bind ?_ fun _ _ => ?_
      · grind
      · refine bounded_bind ?_ fun _ _ => ?_
        · grind
        · exact bounded_bind bounded_advance fun _ _ => bounded_staticBlock bounded
    · refine bounded_bind bounded_isTyped fun _ _ => ?_
      refine bounded_bind bounded_atIndexSignature fun _ _ => ?_
      split
      · exact bounded_bind (bounded_indexSignature bounded) fun _ _ => bounded_pure True.intro
      · refine bounded_bind (bounded_eat _) fun _ _ => ?_
        split
        · refine bounded_bind (bounded_memberKeyword bounded) fun key within => ?_
          refine bounded_bind (bounded_noteIf (by grind)) fun _ _ => ?_
          exact bounded_methodTail bounded _ (by grind) True.intro
        · exact bounded_keyedMember bounded (by grind)

private theorem bounded_placedMember (extending : Bool) {head : MemberHead}
    (within : Within size head) :
    (placedMember g extending head).Bounded size := by
  unfold placedMember
  refine bounded_bind bounded_token fun word within => ?_
  refine bounded_bind (bounded_eatWord _) fun isStatic _ => ?_
  refine bounded_bind bounded_token fun late within => ?_
  refine bounded_bind (bounded_eatTypedWord _) fun isAccessor _ => ?_
  extract_lets later onward
  have laterBounded (u : Unit) : (later u).Bounded size := by
    unfold later
    exact bounded_modifiedMember bounded _ (by grind)
  have onwardBounded (u : Unit) : (onward u).Bounded size := by
    unfold onward
    split
    · refine bounded_bind (bounded_memberNamed? bounded _ (by grind) within) fun _ _ => ?_
      split
      · exact bounded_pure True.intro
      · exact laterBounded ()
    · exact laterBounded ()
  split
  · refine bounded_bind (bounded_memberNamed? bounded _ (by grind) (by grind))
      fun _ _ => ?_
    split
    · exact bounded_pure True.intro
    · exact onwardBounded ()
  · exact onwardBounded ()

private theorem bounded_declaredMember? {head : MemberHead} (within : Within size head) :
    (declaredMember? g head).Bounded size := by
  unfold declaredMember?
  refine bounded_bind bounded_token fun word within => ?_
  split
  · exact bounded_pure (by grind)
  · refine bounded_bind (bounded_eatTypedWord _) fun _ _ => ?_
    split
    · refine bounded_bind (bounded_memberNamed? bounded _ (by grind) within) fun found within => ?_
      split
      · exact bounded_pure True.intro
      · exact bounded_pure (by grind)
    · exact bounded_pure (by grind)

private theorem bounded_classMember (extending : Bool) :
    (classMember g extending).Bounded size := by
  unfold classMember
  refine bounded_bind bounded_here fun start inside => ?_
  extract_lets head
  have headWithin : Within size head := by grind
  refine bounded_bind (bounded_declaredMember? bounded headWithin) fun found within => ?_
  split
  · exact bounded_pure True.intro
  · refine bounded_bind bounded_memberAccess fun _ _ => ?_
    refine bounded_bind (bounded_declaredMember? bounded within) fun _ within => ?_
    split
    · exact bounded_pure True.intro
    · exact bounded_placedMember bounded _ within

private theorem bounded_classMembers (extending : Bool) :
    (classMembers g extending).Bounded size := by
  unfold classMembers
  refine bounded_map (bounded_iterate ?_ fun done within => ?_) fun done within => ?_
  · grind
  · refine bounded_bind bounded_token fun next within => ?_
    split
    · exact bounded_pure within_none
    · refine bounded_bind (bounded_eat _) fun _ _ => ?_
      split
      · exact bounded_pure (by grind)
      · refine bounded_bind (bounded_classMember bounded _) fun member within => ?_
        refine bounded_bind bounded_read fun _ _ => ?_
        exact bounded_bind (bounded_noteIf (by grind)) fun _ _ => bounded_pure (by grind)
  · grind

private theorem bounded_ancestor : (ancestor g).Bounded size := by
  unfold ancestor
  refine bounded_bind bounded_token fun t within => ?_
  refine bounded_bind bounded_anyIdentifier fun name _ => ?_
  refine bounded_bind (bounded.qualified _ (by grind)) fun term within => ?_
  extract_lets named later
  have laterBounded (u : Unit) : (later u).Bounded size := by
    unfold later
    exact bounded_pure (by grind)
  refine bounded_bind (bounded_noteIf (by grind)) fun _ _ => ?_
  refine bounded_bind (bounded_atPunct _) fun _ _ => ?_
  split
  · exact bounded_bind (bounded_typeArguments bounded) fun _ _ => laterBounded ()
  · exact laterBounded ()

theorem bounded_ancestors : (ancestors g).Bounded size := by
  unfold ancestors
  grind [bounded_ancestor bounded]

private theorem bounded_parentClass : (parentClass g).Bounded size := by
  unfold parentClass
  grind [bounded_typeArguments bounded]

private theorem bounded_classAncestors : (classAncestors g).Bounded size := by
  unfold classAncestors
  refine bounded_bind (bounded_eatWord _) fun extending _ => ?_
  extract_lets later onward beyond further onto
  have laterBounded (u : Unit) : (later u).Bounded size := by
    unfold later
    exact bounded_pure True.intro
  have onwardBounded (u : Unit) : (onward u).Bounded size := by
    unfold onward
    refine bounded_bind (bounded_misplacedWord _) fun _ _ => ?_
    split
    · exact bounded_bind (bounded_parentClass bounded) fun _ _ => bounded_pure True.intro
    · exact laterBounded ()
  have beyondBounded (u : Unit) : (beyond u).Bounded size := by
    unfold beyond
    refine bounded_bind (bounded_misplacedWord _) fun _ _ => ?_
    split
    · refine bounded_bind (bounded_discard (bounded_ancestors bounded)) fun _ _ => ?_
      exact onwardBounded ()
    · exact onwardBounded ()
  have furtherBounded (u : Unit) : (further u).Bounded size := by
    unfold further
    refine bounded_bind bounded_isTyped fun _ _ => ?_
    split
    · refine bounded_bind (bounded_eatWord _) fun _ _ => ?_
      split
      · refine bounded_bind (bounded_discard (bounded_ancestors bounded)) fun _ _ => ?_
        exact beyondBounded ()
      · exact beyondBounded ()
    · exact laterBounded ()
  have ontoBounded (u : Unit) : (onto u).Bounded size := by
    unfold onto
    refine bounded_bind (bounded_misplacedWord _) fun _ _ => ?_
    split
    · exact bounded_bind (bounded_parentClass bounded) fun _ _ => furtherBounded ()
    · exact furtherBounded ()
  split
  · refine bounded_bind (bounded_parentClass bounded) fun _ _ => ?_
    refine bounded_bind (bounded_eatTyped _) fun _ _ => ?_
    split
    · refine bounded_bind (bounded_ancestors bounded) fun found within => ?_
      exact bounded_bind (bounded_forM (by grind) within) fun _ _ => ontoBounded ()
    · exact ontoBounded ()
  · exact ontoBounded ()

private theorem bounded_classTail (isAbstract : Bool) : (classTail g isAbstract).Bounded size := by
  unfold classTail
  refine bounded_bind (bounded_typeParameters? bounded _) fun _ _ => ?_
  refine bounded_bind (bounded_classAncestors bounded) fun extending _ => ?_
  refine bounded_bind (bounded_expect _) fun _ _ => ?_
  refine bounded_bind (bounded_within (bounded_bracketed (bounded_classMembers bounded _)))
    fun abstracts within => ?_
  refine bounded_bind (bounded_eat _) fun _ _ => ?_
  extract_lets later onward
  have laterBounded (u : Unit) : (later u).Bounded size := by
    unfold later
    split
    · exact bounded_pure True.intro
    · exact bounded_forM (by grind) within
  have onwardBounded (u : Unit) : (onward u).Bounded size := by
    unfold onward
    refine bounded_bind bounded_here fun _ inside => ?_
    exact bounded_bind (bounded_note inside) fun _ _ => laterBounded ()
  split
  · exact laterBounded ()
  · refine bounded_bind bounded_token fun _ _ => ?_
    split
    · exact onwardBounded ()
    · exact bounded_bind bounded_fail fun _ _ => onwardBounded ()

theorem bounded_classFrom (named : Bool) (isAbstract : Bool) :
    (classFrom g named isAbstract).Bounded size := by
  unfold classFrom
  grind [bounded_classTail bounded isAbstract]

end TypedSvelte.Script.Grammar
