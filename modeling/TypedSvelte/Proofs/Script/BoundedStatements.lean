import TypedSvelte.Proofs.Script.BoundedOperands
import TypedSvelte.Script.Grammar.Flow
import TypedSvelte.Script.Grammar.Operator

/-!
# Expressions and statements stay in the text
-/
namespace TypedSvelte.Script.Grammar

open Reader

variable {size : Nat} {g : Grammar}

@[grind .]
theorem bounded_binaryOperator? : binaryOperator?.Bounded size := by
  unfold binaryOperator?
  grind

@[grind .]
theorem bounded_atEach : atEach.Bounded size := by
  unfold atEach
  grind

@[grind .]
theorem bounded_atVariables : atVariables.Bounded size := by
  unfold atVariables
  grind

@[grind .]
theorem bounded_atAsyncFunction : atAsyncFunction.Bounded size := by
  unfold atAsyncFunction
  grind

@[grind .]
theorem bounded_atConstantEnum : atConstantEnum.Bounded size := by
  unfold atConstantEnum
  grind

@[grind .]
theorem bounded_atLoopDisposable : atLoopDisposable.Bounded size := by
  unfold atLoopDisposable
  grind

@[grind ←]
theorem bounded_checkLoopVariables {list : List Declarator} (within : Within size list) :
    (checkLoopVariables list).Bounded size := by
  unfold checkLoopVariables
  split
  · rename_i declared
    have inside := Pattern.start_le_of_within (within_declarator.1 (within_cons.1 within).1).1
    refine bounded_bind (bounded_noteIf inside) fun _ _ => ?_
    exact bounded_bind bounded_isTyped fun _ _ => bounded_noteIf inside
  · exact bounded_forM (by grind) (by grind)

@[grind ←]
theorem bounded_loopTarget {first : Term} (within : Within size first) :
    (loopTarget first).Bounded size := by
  unfold loopTarget
  grind

@[grind .]
theorem bounded_jumpStatement : jumpStatement.Bounded size := by
  unfold jumpStatement
  refine bounded_bind bounded_here fun start inside => ?_
  refine bounded_bind (bounded_atWord _) fun isContinue _ => ?_
  refine bounded_bind bounded_advance fun _ _ => ?_
  refine bounded_bind bounded_semicolon fun _ _ => ?_
  extract_lets later
  have laterBounded (found : Option String) (within : Within size found) :
      (later found).Bounded size := by
    unfold later
    refine bounded_bind bounded_read fun _ _ => ?_
    extract_lets known
    exact bounded_noteIf inside
  split
  · exact bounded_bind (bounded_pure within_none) fun label within => laterBounded _ within
  · refine bounded_bind bounded_identifier fun found within => ?_
    split
    · refine bounded_bind bounded_endStatement fun _ _ => ?_
      exact bounded_bind (bounded_pure (by grind)) fun _ within => laterBounded _ within

@[grind ←]
theorem bounded_checkDisposable {start : Nat} {list : List Declarator} (begun : start ≤ size)
    (within : Within size list) :
    (checkDisposable start list).Bounded size := by
  unfold checkDisposable
  grind

variable (bounded : g.Bounded size)

include bounded

private theorem bounded_typeAssertion : (typeAssertion g).Bounded size := by
  unfold typeAssertion
  refine bounded_bind bounded_here fun start inside => ?_
  refine bounded_bind (bounded_expectChar _) fun _ _ => ?_
  refine bounded_bind (bounded_eatWord _) fun isConst _ => ?_
  extract_lets later
  have laterBounded (u : Unit) : (later u).Bounded size := by
    unfold later
    refine bounded_bind (bounded_expectChar _) fun _ _ => ?_
    refine bounded_bind bounded.unary fun operand within => ?_
    refine bounded_bind (bounded_spanFrom inside) fun span within => ?_
    split
    · exact bounded_pure (by grind)
    · exact bounded_pure (by grind)
  split
  · exact laterBounded ()
  · exact bounded_bind (bounded_bracketed bounded.typeExpression) fun _ _ => laterBounded ()

theorem bounded_awaitedFrom {start : Nat} (begun : start ≤ size) :
    (awaitedFrom g start).Bounded size := by
  unfold awaitedFrom
  refine bounded_bind (bounded_atPunct _) fun _ _ => ?_
  extract_lets later
  have laterBounded (u : Unit) : (later u).Bounded size := by
    unfold later
    refine bounded_bind bounded_read fun context _ => ?_
    refine bounded_bind (bounded_spanFrom begun) fun word within => ?_
    refine bounded_bind bounded_token fun t within => ?_
    split
    · exact bounded_bind (bounded_note begun) fun _ _ => bounded_pure (by grind)
    · refine bounded_bind (bounded_noteIf begun) fun _ _ => ?_
      refine bounded_bind (bounded_noteIf begun) fun _ _ => ?_
      refine bounded_bind (bounded_discard bounded.unary) fun _ _ => ?_
      exact bounded_bind (bounded_spanFrom begun) fun found within => bounded_pure (by grind)
  split
  · exact bounded_bind bounded_fail fun _ _ => laterBounded ()
  · exact laterBounded ()

private theorem bounded_awaited : (awaited g).Bounded size := by
  unfold awaited
  have awaitedFrom := @bounded_awaitedFrom size g bounded
  grind

private theorem bounded_stepped : (stepped g).Bounded size := by
  unfold stepped
  grind

private theorem bounded_prefixed {operator : Token} (spelled : Within size operator) :
    (prefixed g operator).Bounded size := by
  unfold prefixed
  refine bounded_bind bounded_advance fun _ _ => ?_
  refine bounded_bind (bounded_recover bounded.unary) fun found within => ?_
  extract_lets later
  have laterBounded (u : Unit) : (later u).Bounded size := by
    unfold later
    refine bounded_bind (bounded_spanFrom spelled.1) fun found within => ?_
    exact bounded_pure (by grind)
  split
  · exact bounded_bind (bounded_noteIf (by grind)) fun _ _ => laterBounded ()
  · exact laterBounded ()

private theorem bounded_postfixed : (postfixed g).Bounded size := by
  unfold postfixed
  grind

theorem bounded_unary : (unary g).Bounded size := by
  unfold unary
  have prefixed := @bounded_prefixed size g bounded
  grind [bounded_awaited bounded, bounded_postfixed bounded, bounded_stepped bounded,
    bounded_typeAssertion bounded]

private theorem bounded_assertedType {left : Term} (within : Within size left) :
    (assertedType g left).Bounded size := by
  unfold assertedType
  extract_lets start
  refine bounded_bind (bounded_atWord _) fun _ _ => ?_
  refine bounded_bind bounded_peek fun t within => ?_
  split
  · refine bounded_bind bounded_advance fun _ _ => ?_
    refine bounded_bind bounded_advance fun _ _ => ?_
    refine bounded_bind (bounded_spanFrom (by grind)) fun found within => ?_
    exact bounded_pure (by grind)
  · refine bounded_bind (bounded_atWord _) fun isCheck _ => ?_
    refine bounded_bind bounded_advance fun _ _ => ?_
    refine bounded_bind bounded.typeExpression fun _ _ => ?_
    extract_lets value
    have valueWithin : Within size value := by grind
    refine bounded_bind (bounded_spanFrom (by grind)) fun found within => ?_
    exact bounded_pure (by grind)

theorem bounded_operators {left : Term} (above : Nat) (within : Within size left) :
    (operators g left above).Bounded size := by
  unfold operators
  refine bounded_bind bounded_token fun t within => ?_
  refine bounded_bind bounded_isTyped fun _ _ => ?_
  split
  · refine bounded_bind (bounded_assertedType bounded (by grind)) fun found within => ?_
    exact bounded.operators _ _ within
  · refine bounded_bind bounded_binaryOperator? fun found within => ?_
    split
    · split
      · split
        · exact bounded_pure (by grind)
        · refine bounded_bind bounded_advance fun _ _ => ?_
          extract_lets later
          have laterBounded (u : Unit) : (later u).Bounded size := by
            unfold later
            refine bounded_bind bounded.unary fun first within => ?_
            refine bounded_bind (bounded.operators _ _ within) fun right within => ?_
            refine bounded_bind (bounded_noteIf (by grind)) fun _ _ => ?_
            refine bounded_bind (bounded_noteIf (by grind)) fun _ _ => ?_
            refine bounded_bind (bounded_spanFrom (by grind)) fun found within => ?_
            extract_lets whole
            have wholeWithin : Within size whole := by grind
            exact bounded.operators _ _ wholeWithin
          split
          · exact bounded_bind bounded_fail fun _ _ => laterBounded ()
          · exact laterBounded ()
      · exact bounded_pure (by grind)
    · exact bounded_pure (by grind)

/-- A missing operand stands where reading failed. -/
theorem bounded_firstOperand : (firstOperand g).Bounded size := by
  unfold firstOperand
  refine bounded_tryCatch bounded.unary fun offset inside => ?_
  have missing : Within size (Span.empty offset) := ⟨inside, inside⟩
  grind

theorem bounded_joined : (joined g).Bounded size := by
  unfold joined
  grind [bounded_firstOperand bounded]

private theorem bounded_conditional : (conditional g).Bounded size := by
  unfold conditional
  have branches := @bounded_branches size g bounded
  grind [bounded_joined bounded]

private theorem bounded_yielded : (yielded g).Bounded size := by
  unfold yielded
  refine bounded_bind bounded_here fun start inside => ?_
  refine bounded_bind bounded_read fun context _ => ?_
  refine bounded_bind (bounded_expectWord _) fun _ _ => ?_
  extract_lets later onward
  have laterBounded (u : Unit) : (later u).Bounded size := by
    unfold later
    exact bounded_bind (bounded_spanFrom inside) fun found within => bounded_pure (by grind)
  have onwardBounded (u : Unit) : (onward u).Bounded size := by
    unfold onward
    refine bounded_bind bounded_token fun _ _ => ?_
    split
    · exact laterBounded ()
    · refine bounded_bind (bounded_eat _) fun _ _ => ?_
      split
      · exact bounded_bind (bounded_discard bounded.assignment) fun _ _ => laterBounded ()
      · split
        · split
          · split
            · exact laterBounded ()
            · refine bounded_bind (bounded_discard bounded.assignment) fun _ _ => ?_
              exact laterBounded ()
          · split
            · exact laterBounded ()
            · refine bounded_bind (bounded_discard bounded.assignment) fun _ _ => ?_
              exact laterBounded ()
        · exact laterBounded ()
  split
  · exact bounded_bind (bounded_throw inside) fun _ _ => onwardBounded ()
  · exact onwardBounded ()

theorem bounded_assignmentTo {left : Term} (within : Within size left) :
    (assignmentTo g left).Bounded size := by
  unfold assignmentTo
  refine bounded_bind bounded_token fun t within => ?_
  split
  · exact bounded_pure (by grind)
  · extract_lets start isPlain isPattern later
    have laterBounded (found : Cover) (within : Within size found) :
        (later found).Bounded size := by
      unfold later
      extract_lets onward
      have onwardBounded (u : Unit) : (onward u).Bounded size := by
        unfold onward
        refine bounded_bind bounded_advance fun _ _ => ?_
        refine bounded_bind (bounded_discard bounded.assignment) fun _ _ => ?_
        refine bounded_bind (bounded_spanFrom (by grind)) fun span within => ?_
        split
        · exact bounded_pure (by grind)
        · exact bounded_pure (by grind)
      split
      · exact onwardBounded ()
      · exact bounded_bind (bounded_throw (by grind)) fun _ _ => onwardBounded ()
    split
    · refine bounded_bind (Term.bounded_target (by grind)) fun target within => ?_
      exact bounded_bind (bounded_pure (by grind)) fun cover within => laterBounded _ within
    · refine bounded_bind (bounded_noteIf (by grind)) fun _ _ => ?_
      exact bounded_bind (bounded_pure (by grind)) fun _ within => laterBounded _ within

private theorem bounded_assigned : (assigned g).Bounded size := by
  unfold assigned
  have assignmentTo := @bounded_assignmentTo size g bounded
  grind [bounded_conditional bounded]

private theorem bounded_plainAssignment : (plainAssignment g).Bounded size := by
  unfold plainAssignment
  grind [bounded_assigned bounded, bounded_yielded bounded]

private theorem bounded_genericArrow : (genericArrow g).Bounded size := by
  unfold genericArrow
  have typeParameters := bounded_typeParameters bounded
  grind [bounded_plainAssignment bounded]

theorem bounded_assignment : (assignment g).Bounded size := by
  unfold assignment
  grind [bounded_genericArrow bounded, bounded_plainAssignment bounded]

theorem bounded_expression : (expression g).Bounded size := by
  unfold expression
  grind

private theorem bounded_declarator (kind : VariableKind) (inHead : Bool) :
    (declarator g kind inHead).Bounded size := by
  unfold declarator
  refine bounded_bind bounded_here fun start inside => ?_
  extract_lets later
  have laterBounded (u : Unit) : (later u).Bounded size := by
    unfold later
    refine bounded_bind bounded.binding fun target within => ?_
    refine bounded_bind bounded_isTyped fun _ _ => ?_
    extract_lets onward
    have onwardBounded (u : Unit) : (onward u).Bounded size := by
      unfold onward
      refine bounded_bind (bounded_typeAfterColon? bounded) fun found within => ?_
      extract_lets target beyond
      have targetWithin : Within size target := by grind
      have beyondBounded (u : Unit) : (beyond u).Bounded size := by
        unfold beyond
        exact bounded_pure (by grind)
      refine bounded_bind bounded_atEach fun _ _ => ?_
      split
      · exact bounded_pure (by grind)
      · refine bounded_bind (bounded_eat _) fun _ _ => ?_
        split
        · exact bounded_bind bounded.assignment fun found within => bounded_pure (by grind)
        · refine bounded_bind bounded_read fun _ _ => ?_
          split
          · exact beyondBounded ()
          · split
            · exact bounded_bind (bounded_note inside) fun _ _ => beyondBounded ()
            · split
              · exact beyondBounded ()
              · exact bounded_bind (bounded_throw inside) fun _ _ => beyondBounded ()
    split
    · exact bounded_bind (bounded_discard (bounded_eat _)) fun _ _ => onwardBounded ()
    · exact onwardBounded ()
  split
  · exact laterBounded ()
  · exact bounded_bind bounded_refuseLet fun _ _ => laterBounded ()

private theorem bounded_declarators (kind : VariableKind) (inHead : Bool) :
    (declarators g kind inHead).Bounded size := by
  unfold declarators
  refine bounded_bind bounded_behind fun word inside => ?_
  refine bounded_map (bounded_iterate ?_ fun state within => ?_) fun state within => ?_
  · grind
  · split
    · exact bounded_pure within_none
    · refine bounded_bind bounded_token fun next within => ?_
      refine bounded_bind bounded_behind fun last inside => ?_
      split
      · exact bounded_bind (bounded_note (by grind)) fun _ _ => bounded_pure within_none
      · refine bounded_bind (bounded_declarator bounded _ _) fun d within => ?_
        exact bounded_bind (bounded_eat _) fun _ _ => bounded_pure (by grind)
  · grind

private theorem bounded_endVariables : (endVariables g).Bounded size := by
  unfold endVariables
  refine bounded_bind bounded_semicolon fun _ _ => ?_
  split
  · exact bounded_pure True.intro
  · refine bounded_bind bounded_here fun offset inside => ?_
    refine bounded_bind (bounded_note inside) fun _ _ => ?_
    refine bounded_bind (bounded_disregard bounded.expression) fun _ _ => ?_
    refine bounded_repeatWhile ?_
    refine bounded_bind bounded_semicolon fun _ _ => ?_
    split
    · exact bounded_pure True.intro
    · refine bounded_bind bounded_token fun t within => ?_
      extract_lets later
      have laterBounded (u : Unit) : (later u).Bounded size := by
        unfold later
        exact bounded_pure True.intro
      split
      · exact bounded_bind (bounded_throw (by grind)) fun _ _ => laterBounded ()
      · exact bounded_bind bounded_advance fun _ _ => laterBounded ()

private theorem bounded_variableList (inHead : Bool) : (variableList g inHead).Bounded size := by
  unfold variableList
  have declarators := bounded_declarators bounded
  grind

theorem bounded_variableDeclaration : (variableDeclaration g).Bounded size := by
  unfold variableDeclaration
  have variableList := bounded_variableList bounded
  grind [bounded_endVariables bounded]

theorem bounded_functionDeclaration {start : Nat} (begun : start ≤ size) :
    (functionDeclaration g start).Bounded size := by
  unfold functionDeclaration
  have functionFrom := @bounded_functionFrom size g bounded
  grind

theorem bounded_classDeclaration (isAbstract : Bool) :
    (classDeclaration g isAbstract).Bounded size := by
  unfold classDeclaration
  have classFrom := bounded_classFrom bounded
  grind

private theorem bounded_enumKey : (enumKey g).Bounded size := by
  unfold enumKey
  grind

private theorem bounded_enumMember : (enumMember g).Bounded size := by
  unfold enumMember
  grind [bounded_enumKey bounded]

private theorem bounded_enumTail : (enumTail g).Bounded size := by
  unfold enumTail
  refine bounded_bind bounded_anyIdentifier fun _ _ => bounded_bind (bounded_expect _) fun _ _ => ?_
  refine bounded_bind (bounded_bracketed (bounded_repeatWhile ?_)) fun _ _ => ?_
  · refine bounded_bind (bounded_atPunct _) fun _ _ => ?_
    split
    · exact bounded_pure True.intro
    · refine bounded_bind (bounded_enumMember bounded) fun _ _ => ?_
      refine bounded_bind (bounded_eat _) fun _ _ => ?_
      extract_lets later
      have laterBounded (u : Unit) : (later u).Bounded size := by
        unfold later
        exact bounded_pure True.intro
      split
      · exact laterBounded ()
      · refine bounded_bind (bounded_atPunct _) fun _ _ => ?_
        split
        · exact laterBounded ()
        · refine bounded_bind bounded_here fun _ inside => ?_
          exact bounded_bind (bounded_note inside) fun _ _ => laterBounded ()
  · grind

theorem bounded_interfaceTail : (interfaceTail g).Bounded size := by
  unfold interfaceTail
  refine bounded_bind bounded_here fun _ inside => ?_
  refine bounded_bind bounded_anyIdentifier fun _ _ => ?_
  refine bounded_bind (bounded_noteIf inside) fun _ _ => ?_
  refine bounded_bind (bounded_typeParameters? bounded _) fun _ _ => ?_
  refine bounded_bind (bounded_eatWord _) fun _ _ => ?_
  extract_lets later onward
  have laterBounded (u : Unit) : (later u).Bounded size := by
    unfold later
    exact bounded_bind (bounded_typeMembers bounded) fun _ _ => bounded_pure True.intro
  have onwardBounded (u : Unit) : (onward u).Bounded size := by
    unfold onward
    refine bounded_bind (bounded_atWord _) fun _ _ => ?_
    split
    · refine bounded_bind bounded_here fun _ inside => ?_
      refine bounded_bind (bounded_note inside) fun _ _ => ?_
      refine bounded_bind ?_ fun _ _ => ?_
      · refine bounded_repeatWhile ?_
        refine bounded_bind bounded_token fun _ _ => ?_
        split
        · exact bounded_pure True.intro
        · exact bounded_bind bounded_advance fun _ _ => bounded_pure True.intro
      · exact laterBounded ()
    · exact laterBounded ()
  split
  · refine bounded_bind (bounded_discard (bounded_ancestors bounded)) fun _ _ => ?_
    exact onwardBounded ()
  · exact onwardBounded ()

private theorem bounded_typeTail : (typeTail g).Bounded size := by
  unfold typeTail
  have typeParameters := bounded_typeParameters? bounded
  grind

private theorem bounded_itemBlock : (itemBlock g).Bounded size := by
  unfold itemBlock
  refine bounded_bind (bounded_expect _) fun _ _ => ?_
  refine bounded_bind ?_ fun _ _ => ?_
  · refine bounded_bracketed ?_
    refine bounded_repeatWhile ?_
    refine bounded_bind bounded_token fun _ _ => ?_
    split
    · exact bounded_pure True.intro
    · refine bounded_bind (bounded_discard bounded.moduleItem) fun _ _ => ?_
      exact bounded_pure True.intro
  · refine bounded_bind (bounded_eat _) fun _ _ => ?_
    split
    · exact bounded_pure True.intro
    · exact bounded_bind bounded_here fun _ inside => bounded_note inside

private theorem bounded_namespaceTail : (namespaceTail g).Bounded size := by
  unfold namespaceTail
  grind [bounded_itemBlock bounded]

private theorem bounded_moduleTail : (moduleTail g).Bounded size := by
  unfold moduleTail
  grind [bounded_itemBlock bounded]

theorem bounded_constantEnum : (constantEnum g).Bounded size := by
  unfold constantEnum
  grind [bounded_enumTail bounded]

private theorem bounded_declarationAfter? (word : String) (must : Bool) :
    (declarationAfter? g word must).Bounded size := by
  unfold declarationAfter?
  have classDeclaration := bounded_classDeclaration bounded
  grind [bounded_enumTail bounded, bounded_interfaceTail bounded, bounded_moduleTail bounded,
    bounded_namespaceTail bounded, bounded_typeTail bounded]

theorem bounded_wordedDeclaration? : (wordedDeclaration? g).Bounded size := by
  unfold wordedDeclaration?
  have declarationAfter := bounded_declarationAfter? bounded
  grind

theorem bounded_ambientDeclaration? {start : Nat} (begun : start ≤ size) :
    (ambientDeclaration? g start).Bounded size := by
  unfold ambientDeclaration?
  have classDeclaration := bounded_classDeclaration bounded
  have functionDeclaration := @bounded_functionDeclaration size g bounded
  grind [bounded_constantEnum bounded, bounded_moduleTail bounded,
    bounded_variableDeclaration bounded, bounded_wordedDeclaration? bounded]

private theorem bounded_typedDeclaration? {start : Nat} (word : String) (begun : start ≤ size) :
    (typedDeclaration? g start word).Bounded size := by
  unfold typedDeclaration?
  have ambientDeclaration := @bounded_ambientDeclaration? size g bounded
  have declarationAfter := bounded_declarationAfter? bounded
  grind [bounded_itemBlock bounded]

private theorem bounded_condition : (condition g).Bounded size := by
  unfold condition
  grind

private theorem bounded_nested : (nested g).Bounded size := by
  unfold nested
  grind

private theorem bounded_loopBody : (loopBody g).Bounded size := by
  unfold loopBody
  grind [bounded_nested bounded]

private theorem bounded_ifStatement : (ifStatement g).Bounded size := by
  unfold ifStatement
  grind [bounded_condition bounded, bounded_nested bounded]

private theorem bounded_whileStatement : (whileStatement g).Bounded size := by
  unfold whileStatement
  grind [bounded_condition bounded, bounded_loopBody bounded]

private theorem bounded_doStatement : (doStatement g).Bounded size := by
  unfold doStatement
  grind [bounded_condition bounded, bounded_loopBody bounded]

private theorem bounded_eachTail : (eachTail g).Bounded size := by
  unfold eachTail
  grind

private theorem bounded_countTail : (countTail g).Bounded size := by
  unfold countTail
  grind

omit bounded in
@[grind .]
theorem bounded_missesVariables : (missesVariables g).Bounded size := by
  unfold missesVariables
  grind

private theorem bounded_loopVariables : (loopVariables g).Bounded size := by
  unfold loopVariables
  have declarators := bounded_declarators bounded
  grind

private theorem bounded_loopStart : (loopStart g).Bounded size := by
  unfold loopStart
  refine bounded_bind bounded_atVariables fun _ _ => ?_
  split
  · exact bounded_loopVariables bounded
  · refine bounded_bind bounded_atLoopDisposable fun _ _ => ?_
    split
    · refine bounded_bind bounded_here fun _ inside => ?_
      refine bounded_bind (bounded_eatWord _) fun _ _ => ?_
      extract_lets later
      have laterBounded (u : Unit) : (later u).Bounded size := by
        unfold later
        refine bounded_bind (bounded_expectWord _) fun _ _ => ?_
        exact bounded_discard bounded_declaredName
      split
      · refine bounded_bind bounded_read fun _ _ => ?_
        exact bounded_bind (bounded_noteIf inside) fun _ _ => laterBounded ()
      · exact laterBounded ()
    · refine bounded_bind (bounded_within bounded.expression) fun _ within => ?_
      refine bounded_bind bounded_atEach fun _ _ => ?_
      split
      · exact bounded_loopTarget within
      · exact bounded_pure True.intro

private theorem bounded_forStatement : (forStatement g).Bounded size := by
  unfold forStatement
  refine bounded_bind (bounded_expectWord _) fun _ _ => ?_
  refine bounded_bind bounded_here fun _ inside => ?_
  refine bounded_bind (bounded_eatWord _) fun _ _ => ?_
  refine bounded_bind (bounded_expect _) fun _ _ => ?_
  refine bounded_bind ?_ fun isOf _ => ?_
  · refine bounded_within ?_
    refine bounded_bracketed ?_
    refine bounded_bind (bounded_atPunct _) fun _ _ => ?_
    extract_lets later
    have laterBounded (u : Unit) : (later u).Bounded size := by
      unfold later
      refine bounded_bind (bounded_atWord _) fun _ _ => ?_
      refine bounded_bind bounded_atEach fun _ _ => ?_
      extract_lets onward
      have onwardBounded (u : Unit) : (onward u).Bounded size := by
        unfold onward
        exact bounded_pure True.intro
      split
      · exact bounded_bind (bounded_eachTail bounded) fun _ _ => onwardBounded ()
      · exact bounded_bind (bounded_countTail bounded) fun _ _ => onwardBounded ()
    split
    · exact laterBounded ()
    · exact bounded_bind (bounded_loopStart bounded) fun _ _ => laterBounded ()
  · refine bounded_bind (bounded_expect _) fun _ _ => ?_
    refine bounded_bind (bounded_loopBody bounded) fun _ _ => ?_
    split
    · exact bounded_throw inside
    · exact bounded_pure True.intro

private theorem bounded_returnStatement : (returnStatement g).Bounded size := by
  unfold returnStatement
  grind

private theorem bounded_throwStatement : (throwStatement g).Bounded size := by
  unfold throwStatement
  grind

private theorem bounded_caseBody : (caseBody g).Bounded size := by
  unfold caseBody
  grind

private theorem bounded_switchStatement : (switchStatement g).Bounded size := by
  unfold switchStatement
  refine bounded_bind (bounded_expectWord _) fun _ _ => ?_
  refine bounded_bind (bounded_condition bounded) fun _ _ => ?_
  refine bounded_bind (bounded_expect _) fun _ _ => ?_
  refine bounded_bind (bounded_discard (bounded_within ?_)) fun _ _ => bounded_expect _
  refine bounded_iterate (within_of_unplaced _) fun hasDefault _ => ?_
  refine bounded_bind (bounded_atPunct _) fun _ _ => ?_
  split
  · exact bounded_pure within_none
  · refine bounded_bind (bounded_eatWord _) fun isDefault _ => ?_
    extract_lets later
    have laterBounded (u : Unit) : (later u).Bounded size := by
      unfold later
      refine bounded_bind (bounded_expect _) fun _ _ => ?_
      exact bounded_bind (bounded_caseBody bounded) fun _ _ => bounded_pure (by grind)
    split
    · split
      · exact bounded_bind bounded_fail fun _ _ => laterBounded ()
      · exact laterBounded ()
    · refine bounded_bind (bounded_expectWord _) fun _ _ => ?_
      refine bounded_bind (bounded_discard (bounded_bracketed bounded.expression)) fun _ _ => ?_
      exact laterBounded ()

private theorem bounded_catchClause : (catchClause g).Bounded size := by
  unfold catchClause
  grind [bounded_block bounded, bounded_typeAfterColon? bounded]

private theorem bounded_finallyClause : (finallyClause g).Bounded size := by
  unfold finallyClause
  grind [bounded_block bounded]

private theorem bounded_tryStatement : (tryStatement g).Bounded size := by
  unfold tryStatement
  grind [bounded_block bounded, bounded_catchClause bounded, bounded_finallyClause bounded]

private theorem bounded_strayClauses : (strayClauses g).Bounded size := by
  unfold strayClauses
  grind [bounded_catchClause bounded, bounded_finallyClause bounded]

private theorem bounded_withStatement : (withStatement g).Bounded size := by
  unfold withStatement
  grind [bounded_condition bounded, bounded_nested bounded]

private theorem bounded_labelledStatement {start : Nat} (label : String) (begun : start ≤ size) :
    (labelledStatement g start label).Bounded size := by
  unfold labelledStatement
  grind

private theorem bounded_endExpression {e : Term} (within : Within size e) :
    (endExpression g e).Bounded size := by
  unfold endExpression
  grind

private theorem bounded_expressionStatement : (expressionStatement g).Bounded size := by
  unfold expressionStatement
  refine bounded_bind bounded_here fun start inside => ?_
  refine bounded_bind (bounded_bracketed bounded.expression) fun e within => ?_
  split
  · refine bounded_bind (bounded_endExpression bounded within) fun _ _ => ?_
    exact bounded_pure within.2.1
  · refine bounded_bind (bounded_eat _) fun _ _ => ?_
    split
    · exact bounded_labelledStatement bounded _ inside
    · refine bounded_bind bounded_token fun t within => ?_
      split
      · exact bounded_pure (by grind)
      · refine bounded_bind bounded_isTyped fun _ _ => ?_
        extract_lets later
        have laterBounded (found : Option Declaration) (within : Within size found) :
            (later found).Bounded size := by
          unfold later
          split
          · exact bounded_pure (by grind)
          · refine bounded_bind (bounded_endExpression bounded (by grind)) fun _ _ => ?_
            exact bounded_pure (by grind)
        split
        · refine bounded_bind (bounded_typedDeclaration? bounded _ inside) fun declared within => ?_
          exact laterBounded _ within
        · refine bounded_bind (bounded_pure within_none) fun _ within => ?_
          exact laterBounded _ within

private theorem bounded_importStatement : (importStatement g).Bounded size := by
  unfold importStatement
  grind

private theorem bounded_disposableDeclaration? {start : Nat} (begun : start ≤ size) :
    (disposableDeclaration? g start).Bounded size := by
  unfold disposableDeclaration?
  refine bounded_bind bounded_peek fun next within => ?_
  refine bounded_bind (bounded_atWord _) fun _ _ => ?_
  split
  · refine bounded_bind bounded_advance fun _ _ => ?_
    refine bounded_bind (bounded_declarators bounded _ _) fun list within => ?_
    refine bounded_bind (bounded_checkDisposable begun within) fun _ _ => ?_
    exact bounded_bind (bounded_endVariables bounded) fun _ _ => bounded_pure (by grind)
  · exact bounded_pure within_none

private theorem bounded_awaitStatement : (awaitStatement g).Bounded size := by
  unfold awaitStatement
  refine bounded_bind bounded_here fun start inside => ?_
  refine bounded_bind (bounded_expectWord _) fun _ _ => ?_
  refine bounded_bind (bounded_disposableDeclaration? bounded inside) fun found within => ?_
  split
  · exact bounded_pure (by grind)
  · refine bounded_bind ?_ fun _ _ => ?_
    · refine bounded_discard ?_
      refine bounded_bracketed ?_
      refine bounded_bind (bounded_awaitedFrom bounded inside) fun _ within => ?_
      exact bounded.operators _ _ within
    · refine bounded_bind (bounded_discard bounded_semicolon) fun _ _ => ?_
      exact bounded_pure True.intro

private theorem bounded_flowStatement? {word : String} {reader : Reader Unit}
    (found : flowStatement? g word = some reader) : reader.Bounded size := by
  unfold flowStatement? at found
  split at found <;> cases found <;> grind [bounded_doStatement bounded,
    bounded_forStatement bounded, bounded_ifStatement bounded, bounded_returnStatement bounded,
    bounded_strayClauses bounded, bounded_switchStatement bounded, bounded_throwStatement bounded,
    bounded_tryStatement bounded, bounded_whileStatement bounded, bounded_withStatement bounded]

private theorem bounded_wordDeclaration? (listed : Bool) :
    (wordDeclaration? g listed).Bounded size := by
  unfold wordDeclaration?
  refine bounded_bind bounded_token fun t within => ?_
  refine bounded_bind bounded_peek fun next within => ?_
  refine bounded_bind bounded_atConstantEnum fun _ _ => ?_
  split
  · refine bounded_bind (bounded_constantEnum bounded) fun found within => ?_
    exact bounded_pure (within_some.2 within)
  · split
    · refine bounded_bind (bounded_noteIf (by grind)) fun _ _ => ?_
      refine bounded_bind (bounded_functionDeclaration bounded (by grind)) fun found within => ?_
      exact bounded_pure (within_some.2 within)
    · split
      · refine bounded_bind (bounded_noteIf (by grind)) fun _ _ => ?_
        refine bounded_bind (bounded_classDeclaration bounded _) fun found within => ?_
        exact bounded_pure (within_some.2 within)
      · refine bounded_bind bounded_atVariables fun _ _ => ?_
        split
        · refine bounded_bind (bounded_variableDeclaration bounded) fun found within => ?_
          exact bounded_pure (within_some.2 within)
        · refine bounded_bind bounded_isTyped fun _ _ => ?_
          split
          · exact bounded_wordedDeclaration? bounded
          · refine bounded_bind bounded_atAsyncFunction fun _ _ => ?_
            split
            · refine bounded_bind (bounded_functionDeclaration bounded (by grind))
                fun _ within => ?_
              exact bounded_pure (within_some.2 within)
            · exact bounded_pure within_none

private theorem bounded_wordStatement (listed : Bool) (word : String) :
    (wordStatement g listed word).Bounded size := by
  unfold wordStatement
  have disposableDeclaration := @bounded_disposableDeclaration? size g bounded
  have flowStatement := @bounded_flowStatement? size g bounded
  split
  · rename_i reader found
    exact bounded_bind (bounded_flowStatement? bounded found) fun _ _ => by grind [
       bounded_awaitStatement bounded, bounded_expressionStatement bounded,
      bounded_importStatement bounded, bounded_wordDeclaration? bounded listed]
  · grind [bounded_awaitStatement bounded, bounded_expressionStatement bounded,
    bounded_importStatement bounded, bounded_wordDeclaration? bounded listed]

theorem bounded_statement (listed : Bool) : (statement g listed).Bounded size := by
  unfold statement
  have wordStatement := bounded_wordStatement bounded
  grind [bounded_block bounded, bounded_expressionStatement bounded]

end TypedSvelte.Script.Grammar
