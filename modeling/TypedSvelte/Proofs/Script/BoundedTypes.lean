import TypedSvelte.Proofs.Script.BoundedPatterns
import TypedSvelte.Script.Grammar.TypeSyntax

/-!
# Types stay in the text
-/
namespace TypedSvelte.Script.Grammar

open Reader

variable {size : Nat} {g : Grammar}

instance : Located TupleElement := ⟨fun _ _ => True⟩
instance : Unplaced TupleElement := ⟨fun _ _ => True.intro⟩

@[grind .]
theorem bounded_entityName (anyWords : Bool) : (entityName anyWords).Bounded size := by
  unfold entityName
  refine bounded_bind bounded_token fun _ within => ?_
  refine bounded_bind (bounded_discard bounded_anyIdentifier) fun _ _ => ?_
  refine bounded_bind bounded_here fun offset inside => ?_
  refine bounded_bind (bounded_noteIf inside) fun _ _ => ?_
  split
  · refine bounded_repeatWhile ?_
    refine bounded_bind (bounded_eat _) fun _ _ => ?_
    split
    · refine bounded_bind bounded_token fun _ _ => ?_
      split
      · extract_lets later
        have laterBounded (u : Unit) : (later u).Bounded size := by
          unfold later
          exact bounded_pure True.intro
        exact bounded_bind (bounded_discard bounded_anyWord) fun _ _ => laterBounded ()
      · exact bounded_fail
      · refine bounded_bind bounded_here fun _ inside => ?_
        exact bounded_bind (bounded_note inside) fun _ _ => bounded_pure True.intro
    · exact bounded_pure True.intro
  · refine bounded_repeatWhile ?_
    refine bounded_bind (bounded_eat _) fun _ _ => ?_
    split
    · refine bounded_bind bounded_token fun _ _ => ?_
      split
      · extract_lets later
        have laterBounded (u : Unit) : (later u).Bounded size := by
          unfold later
          exact bounded_pure True.intro
        exact bounded_bind (bounded_discard bounded_unreservedWord) fun _ _ => laterBounded ()
      · exact bounded_fail
      · refine bounded_bind bounded_here fun _ inside => ?_
        exact bounded_bind (bounded_note inside) fun _ _ => bounded_pure True.intro
    · exact bounded_pure True.intro

@[grind .]
theorem bounded_typeParameterWords (words : TypeParameterWords) :
    (typeParameterWords words).Bounded size := by
  unfold typeParameterWords
  grind

@[grind .]
theorem bounded_endMember : endMember.Bounded size := by
  unfold endMember
  grind

@[grind .]
theorem bounded_atIndexSignature : atIndexSignature.Bounded size := by
  unfold atIndexSignature
  grind

@[grind .]
theorem bounded_sign : sign.Bounded size := by
  unfold sign
  grind

@[grind .]
theorem bounded_atMappedType : atMappedType.Bounded size := by
  unfold atMappedType
  grind

@[grind .]
theorem bounded_tupleLabel? : tupleLabel?.Bounded size := by
  unfold tupleLabel?
  grind

@[grind ←]
theorem bounded_joinedTypes {operator : String} {operand : Reader Unit}
    (each : operand.Bounded size) : (joinedTypes operator operand).Bounded size := by
  unfold joinedTypes
  grind

variable (bounded : g.Bounded size)

include bounded

theorem bounded_typeArguments : (typeArguments g).Bounded size := by
  unfold typeArguments
  grind

private theorem bounded_typeArguments? : (typeArguments? g).Bounded size := by
  unfold typeArguments?
  grind [bounded_typeArguments bounded]

private theorem bounded_typeParameter (words : TypeParameterWords) :
    (typeParameter g words).Bounded size := by
  unfold typeParameter
  grind

theorem bounded_typeParameters (words : TypeParameterWords) :
    (typeParameters g words).Bounded size := by
  unfold typeParameters
  grind [bounded_typeParameter bounded words]

theorem bounded_typeParameters? (words : TypeParameterWords) :
    (typeParameters? g words).Bounded size := by
  unfold typeParameters?
  grind [bounded_typeParameters bounded words]

theorem bounded_returnType : (returnType g).Bounded size := by
  unfold returnType
  refine bounded_bind bounded_token fun t within => ?_
  refine bounded_bind bounded_peek fun t within => ?_
  extract_lets asserts later
  have laterBounded (u : Unit) : (later u).Bounded size := by
    unfold later
    refine bounded_bind bounded_peek fun _ within => ?_
    refine bounded_bind bounded_token fun _ _ => ?_
    extract_lets isTest onward beyond
    have onwardBounded (u : Unit) : (onward u).Bounded size := by
      unfold onward
      split
      · exact bounded.typeExpression
      · exact bounded_pure True.intro
    have beyondBounded (u : Unit) : (beyond u).Bounded size := by
      unfold beyond
      split
      · exact bounded_bind bounded_advance fun _ _ => onwardBounded ()
      · exact onwardBounded ()
    split
    · exact bounded_bind (bounded_discard bounded_anyIdentifier) fun _ _ => beyondBounded ()
    · exact beyondBounded ()
  split
  · exact bounded_bind bounded_advance fun _ _ => laterBounded ()
  · exact laterBounded ()

theorem bounded_returnType? : (returnType? g).Bounded size := by
  unfold returnType?
  grind [bounded_returnType bounded]

private theorem bounded_signatureParameters : (signatureParameters g).Bounded size := by
  unfold signatureParameters
  grind [bounded_parameters bounded]

private theorem bounded_signature : (signature g).Bounded size := by
  unfold signature
  have typeParameters := bounded_typeParameters? bounded
  grind [bounded_returnType? bounded, bounded_signatureParameters bounded]

private theorem bounded_functionType : (functionType g).Bounded size := by
  unfold functionType
  have typeParameters := bounded_typeParameters? bounded
  grind [bounded_returnType bounded, bounded_signatureParameters bounded]

theorem bounded_indexSignature : (indexSignature g).Bounded size := by
  unfold indexSignature
  refine bounded_bind (bounded_expect _) fun _ _ => ?_
  refine bounded_bind bounded_here fun _ inside => ?_
  refine bounded_bind (bounded_discard bounded_anyIdentifier) fun _ _ => ?_
  refine bounded_bind (bounded_eat _) fun _ _ => ?_
  extract_lets later
  have laterBounded (u : Unit) : (later u).Bounded size := by
    unfold later
    refine bounded_bind (bounded_bracketed bounded.typeExpression) fun _ _ => ?_
    refine bounded_bind (bounded_expect _) fun _ _ => ?_
    refine bounded_bind (bounded_discard (bounded_typeAfterColon? bounded)) fun _ _ => ?_
    exact bounded_endMember
  split
  · exact bounded_bind (bounded_note inside) fun _ _ => laterBounded ()
  · exact bounded_bind (bounded_expect _) fun _ _ => laterBounded ()

private theorem bounded_typeMemberKey : (typeMemberKey g).Bounded size := by
  unfold typeMemberKey
  grind

private theorem bounded_accessorSignature : (accessorSignature g).Bounded size := by
  unfold accessorSignature
  grind [bounded_signatureParameters bounded, bounded_typeAfterColon? bounded,
    bounded_typeMemberKey bounded]

private theorem bounded_namedSignature (isReadonly : Bool) :
    (namedSignature g isReadonly).Bounded size := by
  unfold namedSignature
  grind [bounded_signature bounded, bounded_typeAfterColon? bounded, bounded_typeMemberKey bounded]

private theorem bounded_typeMember : (typeMember g).Bounded size := by
  unfold typeMember
  refine bounded_bind (bounded_atPunct _) fun _ _ => ?_
  refine bounded_bind (bounded_atPunct _) fun _ _ => ?_
  split
  · exact bounded_bind (bounded_signature bounded) fun _ _ => bounded_endMember
  · refine bounded_bind (bounded_atWord _) fun _ _ => ?_
    refine bounded_bind bounded_peek fun _ within => ?_
    split
    · refine bounded_bind bounded_advance fun _ _ => ?_
      exact bounded_bind (bounded_signature bounded) fun _ _ => bounded_endMember
    · refine bounded_bind (bounded_modifier? _) fun found within => ?_
      extract_lets isReadonly later
      have laterBounded (found : Bool) (within : Within size found) :
          (later found).Bounded size := by
        unfold later
        split
        · exact bounded_pure True.intro
        · exact bounded_namedSignature bounded _
      refine bounded_bind bounded_atIndexSignature fun _ _ => ?_
      split
      · exact bounded_indexSignature bounded
      · split
        · refine bounded_bind (bounded_pure True.intro) fun isAccessor _ => ?_
          exact laterBounded _ True.intro
        · refine bounded_bind (bounded_trial (bounded_accessorSignature bounded))
            fun _ _ => ?_
          refine bounded_bind (bounded_pure True.intro) fun _ _ => ?_
          exact laterBounded _ True.intro

theorem bounded_typeMembers : (typeMembers g).Bounded size := by
  unfold typeMembers
  refine bounded_bind (bounded_expect _) fun _ _ => ?_
  refine bounded_bind ?_ fun _ _ => ?_
  · refine bounded_bracketed ?_
    refine bounded_repeatWhile ?_
    refine bounded_bind (bounded_atPunct _) fun _ _ => ?_
    split
    · exact bounded_pure True.intro
    · exact bounded_bind (bounded_typeMember bounded) fun _ _ => bounded_pure True.intro
  · exact bounded_expect _

private theorem bounded_mappedType : (mappedType g).Bounded size := by
  unfold mappedType
  refine bounded_bind (bounded_expect _) fun _ _ => ?_
  refine bounded_bind bounded_sign fun _ _ => ?_
  extract_lets later onward
  have laterBounded (u : Unit) : (later u).Bounded size := by
    unfold later
    refine bounded_bind (bounded_bracketed (bounded_discard (bounded_typeAfterColon? bounded)))
      fun _ _ => ?_
    exact bounded_bind bounded_endStatement fun _ _ => bounded_expect _
  have onwardBounded (u : Unit) : (onward u).Bounded size := by
    unfold onward
    refine bounded_bind (bounded_expect _) fun _ _ => ?_
    refine bounded_bind (bounded_discard bounded_anyIdentifier) fun _ _ => ?_
    refine bounded_bind (bounded_expectWord _) fun _ _ => ?_
    refine bounded_bind ?_ fun _ _ => ?_
    · refine bounded_bracketed ?_
      refine bounded_bind bounded.typeExpression fun _ _ => ?_
      refine bounded_bind (bounded_eatWord _) fun _ _ => ?_
      split
      · exact bounded.typeExpression
      · exact bounded_pure True.intro
    · refine bounded_bind (bounded_expect _) fun _ _ => ?_
      refine bounded_bind bounded_sign fun _ _ => ?_
      split
      · exact bounded_bind (bounded_expect _) fun _ _ => laterBounded ()
      · exact bounded_bind (bounded_discard (bounded_eat _)) fun _ _ => laterBounded ()
  split
  · exact bounded_bind (bounded_expectWord _) fun _ _ => onwardBounded ()
  · exact bounded_bind (bounded_discard (bounded_eatWord _)) fun _ _ => onwardBounded ()

private theorem bounded_tupleElement : (tupleElement g).Bounded size := by
  unfold tupleElement
  grind

private theorem bounded_tupleType : (tupleType g).Bounded size := by
  unfold tupleType
  grind [bounded_tupleElement bounded]

private theorem bounded_typeAttributes : (typeAttributes g).Bounded size := by
  unfold typeAttributes
  grind

private theorem bounded_importedType : (importedType g).Bounded size := by
  unfold importedType
  refine bounded_bind (bounded_expectWord _) fun _ _ => ?_
  refine bounded_bind (bounded_expect _) fun _ _ => ?_
  refine bounded_bind bounded_token fun _ within => ?_
  extract_lets later onward beyond
  have laterBounded (u : Unit) : (later u).Bounded size := by
    unfold later
    refine bounded_bind (bounded_atChar _) fun _ _ => ?_
    split
    · exact bounded_typeArguments bounded
    · exact bounded_pure True.intro
  have onwardBounded (u : Unit) : (onward u).Bounded size := by
    unfold onward
    refine bounded_bind (bounded_expect _) fun _ _ => ?_
    refine bounded_bind (bounded_eat _) fun _ _ => ?_
    split
    · exact bounded_bind (bounded_entityName _) fun _ _ => laterBounded ()
    · exact laterBounded ()
  have beyondBounded (u : Unit) : (beyond u).Bounded size := by
    unfold beyond
    refine bounded_bind (bounded_eat _) fun _ _ => ?_
    refine bounded_bind (bounded_atPunct _) fun _ _ => ?_
    split
    · exact bounded_bind (bounded_typeAttributes bounded) fun _ _ => onwardBounded ()
    · exact onwardBounded ()
  split
  · exact bounded_bind bounded_advance fun _ _ => beyondBounded ()
  · exact bounded_bind bounded_fail fun _ _ => beyondBounded ()
  · exact bounded_bind bounded_fail fun _ _ => beyondBounded ()
  · refine bounded_bind bounded_advance fun _ _ => ?_
    exact bounded_bind (bounded_note within.1) fun _ _ => beyondBounded ()

private theorem bounded_typeQuery : (typeQuery g).Bounded size := by
  unfold typeQuery
  grind [bounded_importedType bounded, bounded_typeArguments? bounded]

private theorem bounded_typeReference : (typeReference g).Bounded size := by
  unfold typeReference
  grind [bounded_typeArguments? bounded]

private theorem bounded_receiverType : (receiverType g).Bounded size := by
  unfold receiverType
  grind

private theorem bounded_wordType (t : Token) : (wordType g t).Bounded size := by
  unfold wordType
  grind [bounded_importedType bounded, bounded_receiverType bounded, bounded_typeQuery bounded,
    bounded_typeReference bounded]

private theorem bounded_primaryType : (primaryType g).Bounded size := by
  unfold primaryType
  have wordType := bounded_wordType bounded
  grind [bounded_mappedType bounded, bounded_tupleType bounded, bounded_typeMembers bounded]

private theorem bounded_indexedType : (indexedType g).Bounded size := by
  unfold indexedType
  grind [bounded_primaryType bounded]

private theorem bounded_inferredBound : (inferredBound g).Bounded size := by
  unfold inferredBound
  grind

private theorem bounded_operatorType : (operatorType g).Bounded size := by
  unfold operatorType
  grind [bounded_indexedType bounded, bounded_inferredBound bounded]

private theorem bounded_unionType : (unionType g).Bounded size := by
  unfold unionType
  grind [bounded_operatorType bounded]

omit bounded in
@[grind .]
theorem bounded_atFunctionType : (atFunctionType g).Bounded size := by
  unfold atFunctionType
  grind

theorem bounded_unconditionalType : (unconditionalType g).Bounded size := by
  unfold unconditionalType
  grind [bounded_functionType bounded, bounded_unionType bounded]

theorem bounded_typeExpression : (typeExpression g).Bounded size := by
  unfold typeExpression
  refine bounded_within ?_
  refine bounded_bind (bounded_unconditionalType bounded) fun _ _ => ?_
  refine bounded_bind bounded_token fun _ _ => ?_
  split
  · exact bounded_pure True.intro
  · refine bounded_bind (bounded_eatWord _) fun _ _ => ?_
    split
    · refine bounded_bind (bounded_within (bounded_unconditionalType bounded)) fun _ _ => ?_
      refine bounded_bind (bounded_expect _) fun _ _ => ?_
      refine bounded_bind bounded.typeExpression fun _ _ => ?_
      exact bounded_bind (bounded_expect _) fun _ _ => bounded.typeExpression
    · exact bounded_pure True.intro

end TypedSvelte.Script.Grammar
