import TypedSvelte.Proofs.Script.BoundedFunctions
import TypedSvelte.Script.Grammar.Operand

/-!
# Operands stay in the text
-/
namespace TypedSvelte.Script.Grammar

open Reader

variable {size : Nat} {g : Grammar}

instance : Located ListItem where
  Within size
    | .plain term => Within size term
    | .spread start term => start ≤ size ∧ Within size term

@[grind =]
theorem within_plain {term : Term} : Within size (ListItem.plain term) ↔ Within size term := .rfl

@[grind =]
theorem within_spread {start : Nat} {term : Term} :
    Within size (ListItem.spread start term) ↔ start ≤ size ∧ Within size term := .rfl

@[grind ←]
theorem within_cover {item : ListItem} (within : Within size item) : Within size item.cover := by
  cases item with
  | plain term => exact within.2.2
  | spread start term => exact ⟨within.1, within.2.2.2⟩

instance : Located Property where
  Within size property := Within size property.entry ∧ Within size property.cover

@[grind =]
theorem within_property {property : Property} :
    Within size property ↔ Within size property.entry ∧ Within size property.cover := .rfl

instance : Located ArrowHead where
  Within size head := head.start ≤ size ∧ Within size head.params

@[grind =]
theorem within_arrowHead {head : ArrowHead} :
    Within size head ↔ head.start ≤ size ∧ Within size head.params := .rfl

instance : Located GroupItem where
  Within size
    | .expression item => Within size item
    | .parameter pattern => Within size pattern

@[grind =]
theorem within_expression {item : ListItem} :
    Within size (GroupItem.expression item) ↔ Within size item := .rfl

@[grind =]
theorem within_parameter {pattern : Pattern} :
    Within size (GroupItem.parameter pattern) ↔ Within size pattern := .rfl

@[grind ←]
theorem within_term? {item : GroupItem} (within : Within size item) : Within size item.term? := by
  unfold GroupItem.term?
  grind

@[grind ←]
theorem within_restart {start : Nat} {arrow : Term} (begun : start ≤ size)
    (within : Within size arrow) : Within size (restart start arrow) := by
  unfold restart
  grind

@[grind .]
theorem bounded_regexLiteral : regexLiteral.Bounded size := by
  unfold regexLiteral
  refine bounded_bind bounded_here fun start inside => ?_
  refine bounded_ask (fun _ _ => rfl) fun cursor sound => ?_
  split
  · exact bounded_throw inside
  · grind

@[grind ←]
theorem bounded_groupItem_parameters {comma : Option Nat} {items : List GroupItem}
    (after : Within size comma) (within : Within size items) :
    (GroupItem.parameters comma items).Bounded size := by
  fun_induction GroupItem.parameters comma items
  all_goals grind

@[grind ←]
theorem bounded_checkParameterNames {params : List Pattern} (within : Within size params) :
    (checkParameterNames params).Bounded size := by
  unfold checkParameterNames
  exact bounded_forM (by grind) within

@[grind ←]
theorem bounded_groupParameters {items : List GroupItem} {comma : Option Nat}
    (within : Within size items) (after : Within size comma) :
    (groupParameters items comma).Bounded size := by
  unfold groupParameters
  grind

@[grind ←]
theorem bounded_parameterMark {start : Nat} (item : ListItem) (begun : start ≤ size) :
    (parameterMark start item).Bounded size := by
  unfold parameterMark
  grind

@[grind ←]
theorem bounded_groupTerm {start : Nat} (isAsync : Bool) {items : List GroupItem}
    (begun : start ≤ size) (within : Within size items) :
    (groupTerm start isAsync items).Bounded size := by
  have terms : Within size (items.filterMap (·.term?)) := by grind
  have spread : Within size ((items.filterMap (·.term?)).find? (·.2)) := within_find? terms
  unfold groupTerm
  extract_lets terms
  have termsWithin : Within size terms := by grind
  refine bounded_bind (bounded_forM (by grind) termsWithin) fun _ _ => ?_
  refine bounded_bind (bounded_spanFrom begun) fun span within => ?_
  split
  · exact bounded_pure (by grind)
  · extract_lets sequence later
    have sequenceWithin : Within size sequence := by grind
    have laterBounded (u : Unit) : (later u).Bounded size := by
      unfold later
      split
      · exact bounded_throw (by grind)
      · grind
    split
    · exact bounded_bind (bounded_throw begun) fun _ _ => laterBounded ()
    · exact laterBounded ()

@[grind .]
theorem bounded_memberName : memberName.Bounded size := by
  unfold memberName
  grind

@[grind ←]
theorem bounded_memberOf {object : Term} (inChain : Bool) (within : Within size object) :
    (memberOf object inChain).Bounded size := by
  unfold memberOf
  grind

@[grind ←]
theorem bounded_callOf {function : Term} (inChain : Bool) (within : Within size function) :
    (callOf function inChain).Bounded size := by
  unfold callOf
  grind

@[grind ←]
theorem bounded_requireSuper {start : Nat} (begun : start ≤ size) :
    (requireSuper start).Bounded size := by
  unfold requireSuper
  grind

variable (bounded : g.Bounded size)

include bounded

private theorem bounded_listItem : (listItem g).Bounded size := by
  unfold listItem
  grind

private theorem bounded_arrayLiteral : (arrayLiteral g).Bounded size := by
  unfold arrayLiteral
  refine bounded_bind bounded_here fun start begun => bounded_bind (bounded_expect _) fun _ _ => ?_
  refine bounded_bind (bounded_bracketed (bounded_collect ?_)) fun elements within => ?_
  · refine bounded_bind (bounded_atPunct _) fun _ _ => ?_
    split
    · exact bounded_pure within_none
    · refine bounded_bind (bounded_eat _) fun _ _ => ?_
      split
      · exact bounded_pure (by grind)
      · refine bounded_bind (bounded_listItem bounded) fun item within => ?_
        refine bounded_bind (bounded_atPunct _) fun _ _ => ?_
        split
        · exact bounded_pure (by grind)
        · refine bounded_bind bounded_here fun comma inside => ?_
          exact bounded_bind (bounded_expect _) fun _ _ => bounded_pure (by grind)
  · refine bounded_bind (bounded_expect _) fun _ _ => ?_
    refine bounded_bind (bounded_spanFrom begun) fun span within => ?_
    extract_lets comma value
    have commaWithin : Within size comma := by grind
    have valueWithin : Within size value := by grind
    exact bounded_pure (by grind)

private theorem bounded_methodProperty {start : Nat} {offset : Nat} {marks : FunctionMarks}
    (begun : start ≤ size) (inside : offset ≤ size) (marked : Within size marks) :
    (methodProperty g start offset marks).Bounded size := by
  unfold methodProperty
  have functionTail := @bounded_functionTail size g bounded
  grind

private theorem bounded_markedProperty {start : Nat} (word : String) (begun : start ≤ size) :
    (markedProperty g start word).Bounded size := by
  unfold markedProperty
  have methodProperty := @bounded_methodProperty size g bounded
  grind [bounded_propertyKey bounded]

private theorem bounded_shorthandProperty {place : Span} (name : String)
    (within : Within size place) :
    (shorthandProperty g place name).Bounded size := by
  unfold shorthandProperty
  grind

private theorem bounded_keyedProperty {start : Nat} {access : Option Nat} (begun : start ≤ size)
    (told : Within size access) :
    (keyedProperty g start access).Bounded size := by
  unfold keyedProperty
  refine bounded_bind (bounded_propertyKey bounded) fun key within => ?_
  refine bounded_bind bounded_token fun next within => ?_
  refine bounded_bind bounded_isTyped fun _ _ => ?_
  split
  · exact bounded_bind (bounded_note within.1) fun _ _ => bounded_pure (by grind)
  · refine bounded_bind (bounded_eat _) fun _ _ => ?_
    split
    · exact bounded_bind bounded.assignment fun e within => bounded_pure (by grind)
    · refine bounded_bind bounded_atMethod fun _ _ => ?_
      split
      · exact bounded_methodProperty bounded begun (by grind) True.intro
      · split
        · refine bounded_bind (bounded_eat _) fun _ _ => ?_
          refine bounded_bind (bounded_noteIf within.1) fun _ _ => ?_
          refine bounded_bind bounded_token fun t within => ?_
          split
          · exact bounded_shorthandProperty bounded _ (by grind)
          · split
            · refine bounded_bind ?_ fun _ _ => ?_
              · grind
              · exact bounded_markedProperty bounded _ begun
            · exact bounded_fail
        · exact bounded_fail

private theorem bounded_property : (property g).Bounded size := by
  unfold property
  have keyedProperty := @bounded_keyedProperty size g bounded
  have methodProperty := @bounded_methodProperty size g bounded
  grind [bounded_propertyKey bounded]

theorem bounded_objectLiteral : (objectLiteral g).Bounded size := by
  unfold objectLiteral
  refine bounded_bind bounded_here fun start inside => ?_
  refine bounded_bind (bounded_expect _) fun _ _ => ?_
  refine bounded_bind (bounded_bracketed (bounded_commaListEnd (bounded_property bounded)))
    fun found within => ?_
  split
  · exact bounded_bind (bounded_spanFrom inside) fun span within => bounded_pure (by grind)

private theorem bounded_templateLiteral (isTagged : Bool) :
    (templateLiteral g isTagged).Bounded size := by
  unfold templateLiteral
  grind

private theorem bounded_arrowTail {head : ArrowHead} (within : Within size head) :
    (arrowTail g head).Bounded size := by
  unfold arrowTail
  have functionBlock := bounded_functionBlock bounded
  grind

private theorem bounded_namedArrow {start : Nat} (isAsync : Bool) {place : Span}
    (name : String) (begun : start ≤ size) (within : Within size place) :
    (namedArrow g start isAsync place name).Bounded size := by
  unfold namedArrow
  have arrowTail := @bounded_arrowTail size g bounded
  grind

private theorem bounded_genericAsyncArrow : (genericAsyncArrow g).Bounded size := by
  unfold genericAsyncArrow
  refine bounded_bind bounded_here fun start inside => ?_
  refine bounded_bind (bounded_expectWord _) fun _ _ => ?_
  refine bounded_bind (bounded_typeParameters bounded _) fun _ _ => ?_
  refine bounded_bind (bounded_expect _) fun _ _ => ?_
  refine bounded_bind (bounded_parameters bounded) fun params within => ?_
  refine bounded_bind (bounded_expect _) fun _ _ => ?_
  refine bounded_bind (bounded_returnType? bounded) fun hasReturnType _ => ?_
  exact bounded_bind (bounded_expect _) fun _ _ => bounded_arrowTail bounded (by grind)

theorem bounded_branches {test : Term} (within : Within size test) :
    (branches g test).Bounded size := by
  unfold branches
  grind

private theorem bounded_groupExpression : (groupExpression g).Bounded size := by
  unfold groupExpression
  refine bounded_bind bounded_here fun start inside => ?_
  refine bounded_bind (bounded_atPunct _) fun isSpread _ => ?_
  extract_lets later
  have laterBounded (found : Token) (within : Within size found) : (later found).Bounded size := by
    unfold later
    refine bounded_bind bounded_isTyped fun _ _ => ?_
    split
    · exact bounded_listItem bounded
    · refine bounded_bind (bounded_eat _) fun _ _ => ?_
      split
      · exact bounded_bind bounded.joined fun found within => bounded_pure (by grind)
      · refine bounded_bind bounded.joined fun found within => ?_
        refine bounded_bind (bounded.assignmentTo _ within) fun _ within => ?_
        exact bounded_pure within
  split
  · exact bounded_bind bounded_peek fun first within => laterBounded _ within
  · exact bounded_bind bounded_token fun _ within => laterBounded _ within

private theorem bounded_typedParameter {start : Nat} {item : ListItem} (begun : start ≤ size)
    (within : Within size item) :
    (typedParameter g start item).Bounded size := by
  unfold typedParameter
  extract_lets later onward
  have laterBounded (found : Pattern) (within : Within size found) :
      (later found).Bounded size := by
    unfold later
    refine bounded_bind (bounded_eat _) fun _ _ => ?_
    split
    · refine bounded_bind (bounded_discard bounded.assignment) fun _ _ => ?_
      exact bounded_bind (bounded_spanFrom begun) fun found within => bounded_pure (by grind)
    · exact bounded_pure within
  have onwardBounded (found : Pattern) (within : Within size found) :
      (onward found).Bounded size := by
    unfold onward
    split
    · exact bounded_bind (bounded_pure within) fun pattern within => laterBounded _ within
    · exact bounded_bind (bounded_pure within) fun pattern within => laterBounded _ within
    · refine bounded_bind (bounded_typeAfterColon? bounded) fun typeStop within => ?_
      exact bounded_bind (bounded_pure (by grind)) fun _ within => laterBounded _ within
  split
  · refine bounded_bind (Cover.bounded_pattern _ _ (by grind)) fun pattern within => ?_
    exact onwardBounded _ within
  · refine bounded_bind (Cover.bounded_pattern _ _ (by grind)) fun target within => ?_
    refine bounded_bind (bounded_spanFrom begun) fun found within => ?_
    exact bounded_bind (bounded_pure (by grind)) fun _ within => onwardBounded _ within

private theorem bounded_groupItem : (groupItem g).Bounded size := by
  unfold groupItem
  refine bounded_bind bounded_here fun outer begun => bounded_within ?_
  refine bounded_bind bounded_accessWord fun modified _ => ?_
  refine bounded_bind bounded_here fun start inside => ?_
  refine bounded_bind (bounded_groupExpression bounded) fun item within => ?_
  refine bounded_bind bounded_isTyped fun _ _ => ?_
  refine bounded_bind (bounded_atPunct _) fun _ _ => ?_
  extract_lets later onward
  have laterBounded (found : GroupItem) (within : Within size found) :
      (later found).Bounded size := by
    unfold later
    exact bounded_bind (bounded_noteIf begun) fun _ _ => bounded_pure within
  have onwardBounded (found : Bool) (within : Within size found) : (onward found).Bounded size := by
    unfold onward
    extract_lets beyond further
    have beyondBounded (found : ListItem) (within : Within size found) :
        (beyond found).Bounded size := by
      unfold beyond
      refine bounded_bind bounded_isTyped fun _ _ => ?_
      refine bounded_bind (bounded_atPunct _) fun _ _ => ?_
      split
      · refine bounded_bind (bounded_typedParameter bounded inside within) fun _ within => ?_
        exact bounded_bind (bounded_pure within) fun result within => laterBounded _ within
      · exact bounded_bind (bounded_pure within) fun _ within => laterBounded _ within
    have furtherBounded (u : Unit) : (further u).Bounded size := by
      unfold further
      split
      · split
        · exact bounded_bind (bounded_pure within) fun item within => beyondBounded _ within
        · refine bounded_bind (bounded_eatTyped _) fun _ _ => ?_
          split
          · refine bounded_bind (bounded_branches bounded within) fun _ within => ?_
            exact bounded_bind (bounded_pure within) fun item within => beyondBounded _ within
          · exact bounded_bind (bounded_pure within) fun _ within => beyondBounded _ within
      · exact bounded_bind (bounded_pure (by grind)) fun _ within => beyondBounded _ within
    split
    · exact bounded_bind (bounded_parameterMark _ inside) fun _ _ => furtherBounded ()
    · exact furtherBounded ()
  split
  · refine bounded_bind bounded_peek fun _ _ => ?_
    exact bounded_bind (bounded_pure True.intro) fun atMark _ => onwardBounded _ True.intro
  · exact bounded_bind (bounded_pure True.intro) fun _ _ => onwardBounded _ True.intro

private theorem bounded_brokenArrow {start : Nat} {items : List GroupItem} (begun : start ≤ size)
    (within : Within size items) :
    (brokenArrow g start items).Bounded size := by
  unfold brokenArrow
  refine bounded_bind (bounded_eat _) fun _ _ => ?_
  split
  · split
    · split
      · refine bounded_bind (bounded_groupParameters within within_none) fun params within => ?_
        refine bounded_bind (bounded_arrowTail bounded (by grind)) fun arrow within => ?_
        exact bounded_pure (by grind)
      · exact bounded_pure within
    · exact bounded_pure within
  · exact bounded_pure within

private theorem bounded_groupItems : (groupItems g).Bounded size := by
  unfold groupItems
  refine bounded_bind (bounded_expect _) fun _ _ => ?_
  refine bounded_bind (bounded_iterate ?_ fun done within => ?_) fun result within => ?_
  · grind
  · refine bounded_bind (bounded_atPunct _) fun _ _ => ?_
    split
    · exact bounded_pure within_none
    · refine bounded_bind bounded_here fun start inside => ?_
      refine bounded_bind (bounded_groupItem bounded) fun found within => ?_
      refine bounded_bind (bounded_brokenArrow bounded inside (by grind)) fun items within => ?_
      refine bounded_bind (bounded_atPunct _) fun _ _ => ?_
      split
      · exact bounded_pure (by grind)
      · refine bounded_bind bounded_here fun comma inside => ?_
        refine bounded_bind (bounded_expect _) fun _ _ => ?_
        exact bounded_bind (bounded_atPunct _) fun _ _ => bounded_pure (by grind)
  · grind

private theorem bounded_branchArrow {head : ArrowHead} {items : List GroupItem} {comma : Option Nat}
    (headWithin : Within size head) (within : Within size items) (after : Within size comma) :
    (branchArrow g head items comma).Bounded size := by
  unfold branchArrow
  refine bounded_bind (bounded_expect _) fun _ _ => ?_
  refine bounded_bind (bounded_bracketed (bounded_returnType bounded)) fun _ _ => ?_
  refine bounded_bind (bounded_expect _) fun _ _ => ?_
  refine bounded_bind (bounded_groupParameters within after) fun params within => ?_
  refine bounded_bind (bounded_arrowTail bounded (by grind)) fun _ within => ?_
  refine bounded_bind bounded_read fun _ _ => ?_
  extract_lets later
  have laterBounded (u : Unit) : (later u).Bounded size := by
    unfold later
    exact bounded_pure within
  split
  · refine bounded_bind (bounded_atPunct _) fun _ _ => ?_
    split
    · exact laterBounded ()
    · exact bounded_bind bounded_fail fun _ _ => laterBounded ()
  · exact laterBounded ()

private theorem bounded_arrowReturnType? : (arrowReturnType? g).Bounded size := by
  unfold arrowReturnType?
  refine bounded_bind bounded_isTyped fun _ _ => ?_
  refine bounded_bind bounded_read fun _ _ => ?_
  refine bounded_bind (bounded_atPunct _) fun _ _ => ?_
  split
  · refine bounded_bind ?_ fun _ _ => ?_
    · refine bounded_trial ?_
      refine bounded_bind bounded_advance fun _ _ => ?_
      refine bounded_bind (bounded_bracketed (bounded_returnType bounded)) fun _ _ => ?_
      refine bounded_bind (bounded_atPunct _) fun _ _ => ?_
      split
      · exact bounded_pure True.intro
      · exact bounded_fail
    · exact bounded_pure True.intro
  · exact bounded_pure True.intro

private theorem bounded_groupArrow {head : ArrowHead} (within : Within size head) :
    (groupArrow g head).Bounded size := by
  unfold groupArrow
  refine bounded_bind (bounded_atPunct _) fun isBlock _ => ?_
  refine bounded_bind (bounded_arrowTail bounded within) fun arrow within => ?_
  refine bounded_bind bounded_token fun t within => ?_
  split
  · exact bounded_pure (by grind)
  · refine bounded_bind bounded_here fun offset inside => ?_
    refine bounded_bind (bounded_note inside) fun _ _ => ?_
    refine bounded_bind (bounded.operators _ _ (by grind)) fun whole within => ?_
    refine bounded_bind bounded_token fun t within => ?_
    extract_lets later
    have laterBounded (u : Unit) : (later u).Bounded size := by
      unfold later
      exact bounded_pure (by grind)
    split
    · exact laterBounded ()
    · refine bounded_bind bounded_here fun _ inside => ?_
      exact bounded_bind (bounded_note inside) fun _ _ => laterBounded ()

private theorem bounded_parenthesised {start : Nat} (isAsync : Bool) (begun : start ≤ size) :
    (parenthesised g start isAsync).Bounded size := by
  unfold parenthesised
  refine bounded_bind (bounded_bracketed (bounded_groupItems bounded)) fun found within => ?_
  split
  · extract_lets head later
    have headWithin : Within size head := by grind
    have laterBounded (u : Unit) : (later u).Bounded size := by
      unfold later
      refine bounded_bind (bounded_arrowReturnType? bounded) fun hasReturnType _ => ?_
      refine bounded_bind (bounded_atPunct _) fun _ _ => ?_
      split
      · refine bounded_bind bounded_token fun t within => ?_
        refine bounded_bind bounded_read fun _ _ => ?_
        extract_lets onward
        have onwardBounded (u : Unit) : (onward u).Bounded size := by
          unfold onward
          refine bounded_bind (bounded_expect _) fun _ _ => ?_
          refine bounded_bind (bounded_groupParameters (by grind) (by grind))
            fun params within => ?_
          exact bounded_groupArrow bounded (by grind)
        split
        · exact bounded_bind (bounded_throw begun) fun _ _ => onwardBounded ()
        · exact onwardBounded ()
      · exact bounded_groupTerm _ begun within.1
    refine bounded_bind bounded_isTyped fun _ _ => ?_
    refine bounded_bind bounded_read fun _ _ => ?_
    refine bounded_bind (bounded_atPunct _) fun _ _ => ?_
    split
    · refine bounded_bind (bounded_trial (bounded_branchArrow bounded headWithin within.1 within.2))
        fun _ within => ?_
      split
      · exact bounded_pure (within_some.1 within)
      · exact laterBounded ()
    · exact laterBounded ()

private theorem bounded_functionTerm {start : Nat} (isAsync : Bool) (begun : start ≤ size) :
    (functionTerm g start isAsync).Bounded size := by
  unfold functionTerm
  have functionFrom := @bounded_functionFrom size g bounded
  grind

private theorem bounded_asyncNamed {place : Span} (within : Within size place) :
    (asyncNamed g place).Bounded size := by
  unfold asyncNamed
  refine bounded_bind bounded_read fun context _ => ?_
  extract_lets word
  have wordWithin : Within size word := by grind
  refine bounded_bind (bounded_atWord _) fun _ _ => ?_
  refine bounded_bind bounded_peek fun t within => ?_
  split
  · exact bounded_bind (bounded_noteIf (by grind)) fun _ _ => bounded_pure wordWithin
  · refine bounded_bind bounded_declaredName fun found within => ?_
    split
    · refine bounded_bind (bounded_atPunct _) fun _ _ => ?_
      split
      · refine bounded_bind bounded.typeExpression fun _ _ => ?_
        refine bounded_bind (bounded_spanFrom (by grind)) fun found within => ?_
        exact bounded_pure (by grind)
      · refine bounded_bind (bounded_expect _) fun _ _ => ?_
        exact bounded_namedArrow bounded _ _ (by grind) within.1

private theorem bounded_nameTerm : (nameTerm g).Bounded size := by
  unfold nameTerm
  refine bounded_bind bounded_token fun t within => ?_
  refine bounded_bind bounded_isTyped fun _ _ => ?_
  extract_lets later
  have laterBounded (u : Unit) : (later u).Bounded size := by
    unfold later
    refine bounded_bind bounded_identifier fun found within => ?_
    split
    · refine bounded_bind bounded_read fun _ _ => ?_
      extract_lets canBeArrow
      refine bounded_bind bounded_token fun t within => ?_
      split
      · exact bounded_pure (by grind)
      · refine bounded_bind bounded_token fun t within => ?_
        split
        · exact bounded_asyncNamed bounded (by grind)
        · refine bounded_bind (bounded_eat _) fun _ _ => ?_
          split
          · refine bounded_bind (bounded_noteIf (by grind)) fun _ _ => ?_
            exact bounded_namedArrow bounded _ _ (by grind) (by grind)
          · exact bounded_pure (by grind)
  split
  · exact bounded_bind bounded_fail fun _ _ => laterBounded ()
  · exact laterBounded ()

private theorem bounded_asyncTerm {start : Nat} (begun : start ≤ size) :
    (asyncTerm g start).Bounded size := by
  unfold asyncTerm
  have functionTerm := @bounded_functionTerm size g bounded
  have parenthesised := @bounded_parenthesised size g bounded
  grind [bounded_genericAsyncArrow bounded, bounded_nameTerm bounded]

private theorem bounded_wordTerm {t : Token} (within : Within size t) :
    (wordTerm g t).Bounded size := by
  unfold wordTerm
  have asyncTerm := @bounded_asyncTerm size g bounded
  have classFrom := bounded_classFrom bounded
  have functionTerm := @bounded_functionTerm size g bounded
  grind [bounded_nameTerm bounded]

private theorem bounded_primary : (primary g).Bounded size := by
  unfold primary
  refine bounded_bind bounded_token fun t within => ?_
  extract_lets span
  have spanWithin : Within size span := by grind
  split
  · exact bounded_bind bounded_advance fun _ _ => bounded_pure (by grind)
  · exact bounded_bind bounded_advance fun _ _ => bounded_pure (by grind)
  · exact bounded_bind bounded_advance fun _ _ => bounded_pure (by grind)
  · exact bounded_wordTerm bounded within
  · exact bounded_templateLiteral bounded _
  · exact bounded_parenthesised bounded _ spanWithin.1
  · exact bounded_arrayLiteral bounded
  · exact bounded_objectLiteral bounded
  · exact bounded_regexLiteral
  · exact bounded_regexLiteral
  · exact bounded_fail

private theorem bounded_memberKey : (memberKey g).Bounded size := by
  unfold memberKey
  grind

private theorem bounded_arguments : (arguments g).Bounded size := by
  unfold arguments
  grind [bounded_listItem bounded]

private theorem bounded_instantiated {term : Term} (within : Within size term) :
    (instantiated g term).Bounded size := by
  unfold instantiated
  refine bounded_bind bounded_isTyped fun _ _ => ?_
  refine bounded_bind bounded_token fun t within => ?_
  extract_lets later
  have laterBounded (u : Unit) : (later u).Bounded size := by
    unfold later
    exact bounded_pure (by grind)
  split
  · refine bounded_bind ?_ fun found within => ?_
    · refine bounded_trial ?_
      refine bounded_bind (bounded_typeArguments bounded) fun _ _ => ?_
      refine bounded_bind bounded_token fun t within => ?_
      split
      · exact bounded_pure True.intro
      · exact bounded_fail
    · split
      · refine bounded_bind (bounded_spanFrom (by grind)) fun found within => ?_
        exact bounded_pure (by grind)
      · exact laterBounded ()
  · exact laterBounded ()

private theorem bounded_taggedTemplate {function : Term} (within : Within size function) :
    (taggedTemplate g function).Bounded size := by
  unfold taggedTemplate
  have templateLiteral := bounded_templateLiteral bounded
  grind

private theorem bounded_typedStep (reach : Reach) {object : Term} (within : Within size object) :
    (typedStep g reach object).Bounded size := by
  unfold typedStep
  refine bounded_bind (bounded_typeArguments bounded) fun _ _ => ?_
  refine bounded_bind bounded_token fun next within => ?_
  split
  · refine bounded_bind (bounded_arguments bounded) fun _ _ => ?_
    refine bounded_bind (bounded_callOf _ (by grind)) fun found within => ?_
    exact bounded_pure (by grind)
  · split
    · refine bounded_bind (bounded_taggedTemplate bounded (by grind)) fun found within => ?_
      exact bounded_pure (by grind)
    · split
      · refine bounded_bind (bounded_spanFrom (by grind)) fun span within => ?_
        exact bounded_pure (by grind)
      · exact bounded_fail

private theorem bounded_chainStep (reach : Reach) {object : Term} (within : Within size object) :
    (chainStep g reach object).Bounded size := by
  unfold chainStep
  refine bounded_bind (bounded_expect _) fun _ _ => ?_
  refine bounded_bind (bounded_atPunct _) fun _ _ => ?_
  split
  · refine bounded_bind (bounded_memberKey bounded) fun _ _ => ?_
    refine bounded_bind (bounded_memberOf _ within) fun found within => ?_
    exact bounded_instantiated bounded within
  · refine bounded_bind (bounded_atPunct _) fun _ _ => ?_
    refine bounded_bind bounded_isTyped fun _ _ => ?_
    refine bounded_bind (bounded_atPunct _) fun _ _ => ?_
    split
    · refine bounded_bind (bounded_atPunct _) fun _ _ => ?_
      extract_lets later
      have laterBounded (u : Unit) : (later u).Bounded size := by
        unfold later
        exact bounded_bind (bounded_arguments bounded) fun _ _ => bounded_callOf _ within
      split
      · exact bounded_bind (bounded_typeArguments bounded) fun _ _ => laterBounded ()
      · exact laterBounded ()
    · refine bounded_bind bounded_memberName fun _ _ => ?_
      refine bounded_bind (bounded_memberOf _ within) fun _ within => ?_
      exact bounded_instantiated bounded within

private theorem bounded_accessStep (reach : Reach) {object : Term} (within : Within size object) :
    (accessStep g reach object).Bounded size := by
  unfold accessStep
  refine bounded_bind bounded_token fun t within => ?_
  refine bounded_bind bounded_isTyped fun typed _ => ?_
  split
  · refine bounded_bind bounded_advance fun _ _ => ?_
    refine bounded_bind (bounded_spanFrom (by grind)) fun span within => ?_
    exact bounded_pure (by grind)
  · extract_lets later
    have laterBounded (u : Unit) : (later u).Bounded size := by
      unfold later
      split
      · refine bounded_bind (bounded_chainStep bounded _ (by grind)) fun found within => ?_
        exact bounded_pure (by grind)
      · split
        · exact bounded_pure within_none
        · refine bounded_bind (bounded_memberKey bounded) fun _ _ => ?_
          refine bounded_bind (bounded_memberOf _ (by grind)) fun found within => ?_
          refine bounded_bind (bounded_instantiated bounded within) fun found within => ?_
          exact bounded_pure (by grind)
      · split
        · exact bounded_pure within_none
        · refine bounded_bind (bounded_arguments bounded) fun _ _ => ?_
          refine bounded_bind (bounded_callOf _ (by grind)) fun found within => ?_
          exact bounded_pure (by grind)
      · refine bounded_bind bounded_advance fun _ _ => ?_
        refine bounded_bind bounded_memberName fun _ _ => ?_
        refine bounded_bind (bounded_memberOf _ (by grind)) fun found within => ?_
        refine bounded_bind (bounded_instantiated bounded within) fun found within => ?_
        exact bounded_pure (by grind)
      · refine bounded_bind (bounded_taggedTemplate bounded (by grind)) fun found within => ?_
        exact bounded_pure (by grind)
      · exact bounded_pure within_none
    split
    · refine bounded_bind (bounded_trial (bounded_typedStep bounded _ (by grind)))
        fun _ within => ?_
      split
      · exact bounded_pure within
      · exact laterBounded ()
    · exact laterBounded ()

private theorem bounded_accesses (reach : Reach) {object : Term} (within : Within size object) :
    (accesses g reach object).Bounded size := by
  unfold accesses
  have accessStep := @bounded_accessStep size g bounded
  grind

theorem bounded_qualified {left : Term} (within : Within size left) :
    (qualified g left).Bounded size := by
  unfold qualified
  have accesses := @bounded_accesses size g bounded
  grind

private theorem bounded_superTerm (calls : Bool) : (superTerm g calls).Bounded size := by
  unfold superTerm
  refine bounded_bind bounded_here fun start inside => ?_
  refine bounded_bind (bounded_expectWord _) fun _ _ => ?_
  refine bounded_bind bounded_token fun t within => ?_
  extract_lets word later onward beyond
  have wordWithin : Within size word := by grind
  have laterBounded (found : Term) (within : Within size found) : (later found).Bounded size := by
    unfold later
    exact bounded_accesses bounded _ within
  have onwardBounded (u : Unit) : (onward u).Bounded size := by
    unfold onward
    refine bounded_bind (bounded_arguments bounded) fun _ _ => ?_
    exact bounded_bind (bounded_callOf _ wordWithin) fun _ within => laterBounded _ within
  have beyondBounded (u : Unit) : (beyond u).Bounded size := by
    unfold beyond
    exact bounded_bind bounded_fail fun _ within => laterBounded _ within
  split
  · split
    · exact onwardBounded ()
    · exact bounded_bind bounded_fail fun _ _ => onwardBounded ()
  · refine bounded_bind (bounded_memberKey bounded) fun _ _ => ?_
    refine bounded_bind (bounded_requireSuper inside) fun _ _ => ?_
    refine bounded_bind (bounded_memberOf _ wordWithin) fun found within => ?_
    refine bounded_bind (bounded_instantiated bounded within) fun first within => ?_
    exact laterBounded _ within
  · refine bounded_bind bounded_advance fun _ _ => ?_
    refine bounded_bind bounded_token fun _ within => ?_
    refine bounded_bind bounded_memberName fun _ _ => ?_
    refine bounded_bind (bounded_requireSuper inside) fun _ _ => ?_
    split
    · exact bounded_bind bounded_fail fun first within => laterBounded _ within
    · refine bounded_bind (bounded_memberOf _ wordWithin) fun _ within => ?_
      refine bounded_bind (bounded_instantiated bounded within) fun _ within => ?_
      exact laterBounded _ within
  · exact bounded_bind (bounded_throw inside) fun first within => laterBounded _ within
  · refine bounded_bind bounded_isTyped fun _ _ => ?_
    split
    · exact bounded_bind bounded_advance fun _ _ => beyondBounded ()
    · exact beyondBounded ()
  · exact bounded_bind bounded_fail fun _ within => laterBounded _ within

private theorem bounded_importTerm (calls : Bool) : (importTerm g calls).Bounded size := by
  unfold importTerm
  refine bounded_bind bounded_here fun start inside => ?_
  refine bounded_bind (bounded_expectWord _) fun _ _ => ?_
  refine bounded_bind (bounded_eat _) fun _ _ => ?_
  extract_lets later onward beyond
  have laterBounded (u : Unit) : (later u).Bounded size := by
    unfold later
    refine bounded_bind (bounded_spanFrom inside) fun found within => ?_
    exact bounded_accesses bounded _ (by grind)
  have onwardBounded (u : Unit) : (onward u).Bounded size := by
    unfold onward
    exact bounded_bind (bounded_arguments bounded) fun _ _ => laterBounded ()
  have beyondBounded (found : Bool) (within : Within size found) : (beyond found).Bounded size := by
    unfold beyond
    split
    · exact laterBounded ()
    · split
      · exact onwardBounded ()
      · exact bounded_bind bounded_fail fun _ _ => onwardBounded ()
  split
  · refine bounded_bind bounded_anyWord fun _ _ => ?_
    extract_lets further
    have furtherBounded (u : Unit) : (further u).Bounded size := by
      unfold further
      exact bounded_bind (bounded_pure True.intro) fun _ _ => beyondBounded _ True.intro
    split
    · exact furtherBounded ()
    · exact bounded_bind bounded_fail fun _ _ => furtherBounded ()
  · exact bounded_bind (bounded_pure True.intro) fun _ _ => beyondBounded _ True.intro

private theorem bounded_newTerm : (newTerm g).Bounded size := by
  unfold newTerm
  refine bounded_bind bounded_here fun start inside => ?_
  refine bounded_bind (bounded_expectWord _) fun _ _ => ?_
  refine bounded_bind (bounded_eat _) fun _ _ => ?_
  split
  · refine bounded_bind (bounded_expectWord _) fun _ _ => ?_
    refine bounded_bind bounded_read fun _ _ => ?_
    refine bounded_bind (bounded_noteIf inside) fun _ _ => ?_
    refine bounded_bind (bounded_spanFrom inside) fun found within => ?_
    exact bounded_accesses bounded _ (by grind)
  · refine bounded_bind bounded.callee fun callee within => ?_
    split
    · exact bounded_pure within
    · extract_lets later onward
      have laterBounded (u : Unit) : (later u).Bounded size := by
        unfold later
        refine bounded_bind (bounded_atPunct _) fun _ _ => ?_
        split
        · refine bounded_bind (bounded_arguments bounded) fun _ _ => ?_
          refine bounded_bind (bounded_spanFrom inside) fun found within => ?_
          exact bounded_accesses bounded _ (by grind)
        · refine bounded_bind (bounded_spanFrom inside) fun found within => ?_
          exact bounded_pure (by grind)
      have onwardBounded (u : Unit) : (onward u).Bounded size := by
        unfold onward
        refine bounded_bind bounded_isTyped fun _ _ => ?_
        refine bounded_bind bounded_token fun _ _ => ?_
        split
        · refine bounded_bind ?_ fun _ _ => ?_
          · refine bounded_discard ?_
            refine bounded_trial ?_
            refine bounded_bind (bounded_typeArguments bounded) fun _ _ => ?_
            refine bounded_bind (bounded_atPunct _) fun _ _ => ?_
            split
            · exact bounded_pure True.intro
            · exact bounded_fail
          · exact laterBounded ()
        · exact laterBounded ()
      split
      · exact bounded_bind (bounded_throw (by grind)) fun _ _ => onwardBounded ()
      · exact onwardBounded ()

theorem bounded_callee : (callee g).Bounded size := by
  unfold callee
  have accesses := @bounded_accesses size g bounded
  have importTerm := bounded_importTerm bounded
  have instantiated := @bounded_instantiated size g bounded
  have superTerm := bounded_superTerm bounded
  grind [bounded_newTerm bounded, bounded_primary bounded]

theorem bounded_access : (access g).Bounded size := by
  unfold access
  refine bounded_bind bounded_token fun t within => ?_
  split
  · exact bounded_superTerm bounded _
  · split
    · exact bounded_importTerm bounded _
    · refine bounded_bind (bounded_callee bounded) fun function within => ?_
      split
      · exact bounded_pure within
      · refine bounded_bind bounded_isTyped fun _ _ => ?_
        refine bounded_bind bounded_token fun t within => ?_
        extract_lets later
        have laterBounded (found : Bool) (within : Within size found) :
            (later found).Bounded size := by
          unfold later
          refine bounded_bind (bounded_atPunct _) fun _ _ => ?_
          split
          · refine bounded_bind (bounded_arguments bounded) fun _ _ => ?_
            refine bounded_bind (bounded_callOf _ (by grind)) fun found within => ?_
            exact bounded_accesses bounded _ within
          · exact bounded_pure (by grind)
        split
        · refine bounded_bind ?_ fun _ _ => ?_
          · refine bounded_trial ?_
            refine bounded_bind (bounded_typeArguments bounded) fun _ _ => ?_
            refine bounded_bind (bounded_atPunct _) fun _ _ => ?_
            split
            · exact bounded_pure True.intro
            · exact bounded_fail
          · refine bounded_bind (bounded_pure True.intro) fun _ _ => ?_
            exact laterBounded _ True.intro
        · refine bounded_bind (bounded_pure True.intro) fun _ _ => ?_
          exact laterBounded _ True.intro

end TypedSvelte.Script.Grammar
