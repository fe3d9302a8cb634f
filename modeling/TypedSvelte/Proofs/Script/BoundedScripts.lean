import TypedSvelte.Proofs.Script.BoundedStatements
import TypedSvelte.Proofs.Script.CursorPlaces
import TypedSvelte.Proofs.Text.Bytes

/-!
# Scripts stay in their text
-/
namespace TypedSvelte.Script.Grammar

open Reader

variable {size : Nat} {g : Grammar}

instance : Located ClauseName where
  Within size n := Within size n.place ∧ Within size n.name

@[grind =]
theorem within_clauseName {n : ClauseName} :
    Within size n ↔ Within size n.place ∧ Within size n.name := .rfl

instance : Located ClausePart where
  Within size part := Within size part.source ∧ Within size part.renamed

@[grind =]
theorem within_clausePart {part : ClausePart} :
    Within size part ↔ Within size part.source ∧ Within size part.renamed := .rfl

@[grind ←]
theorem within_specifier {part : ClausePart} (within : Within size part) :
    Within size part.specifier := by
  unfold ClausePart.specifier
  grind

instance : Located ImportHead := ⟨fun _ _ => True⟩
instance : Unplaced ImportHead := ⟨fun _ _ => True.intro⟩

@[grind .]
theorem bounded_moduleName : moduleName.Bounded size := by
  unfold moduleName
  grind

@[grind .]
theorem bounded_clauseName : clauseName.Bounded size := by
  unfold clauseName
  grind

@[grind .]
theorem bounded_atClauseWord : atClauseWord.Bounded size := by
  unfold atClauseWord
  grind

@[grind ←]
theorem bounded_typeAsPart {type : ClauseName} {as : ClauseName} {target : Reader ClauseName}
    (first : Within size type) (second : Within size as)
    (other : target.Bounded size) :
    (typeAsPart type as target).Bounded size := by
  unfold typeAsPart
  grind

@[grind ←]
theorem bounded_clausePart (isTypeClause : Bool) {target : Reader ClauseName}
    (other : target.Bounded size) :
    (clausePart isTypeClause target).Bounded size := by
  unfold clausePart
  refine bounded_bind bounded_clauseName fun first within => ?_
  refine bounded_bind bounded_isTyped fun _ _ => ?_
  refine bounded_bind bounded_atClauseWord fun _ _ => ?_
  extract_lets later
  have laterBounded (found : ClausePart) (within : Within size found) :
      (later found).Bounded size := by
    unfold later
    refine bounded_bind (bounded_eatWord _) fun _ _ => ?_
    split
    · exact bounded_bind other fun found within => bounded_pure (by grind)
    · exact bounded_pure within
  split
  · refine bounded_bind bounded_clauseName fun second within => ?_
    split
    · refine bounded_bind (bounded_typeAsPart (by grind) within other) fun part within => ?_
      exact bounded_bind (bounded_noteIf (by grind)) fun _ _ => bounded_pure within
    · refine bounded_bind (bounded_noteIf (by grind)) fun _ _ => ?_
      exact bounded_bind (bounded_pure (by grind)) fun _ within => laterBounded _ within
  · exact bounded_bind (bounded_pure (by grind)) fun _ within => laterBounded _ within

@[grind .]
theorem bounded_importedName : importedName.Bounded size := by
  unfold importedName
  grind

@[grind .]
theorem bounded_importSpecifier (isTypeClause : Bool) :
    (importSpecifier isTypeClause).Bounded size := by
  unfold importSpecifier
  refine bounded_bind (bounded_clausePart isTypeClause bounded_importedName) fun part within => ?_
  have localName : Within size (part.renamed.getD part.source) := within_getD within.2 within.1
  grind

@[grind .]
theorem bounded_typeOnlyName? : typeOnlyName?.Bounded size := by
  unfold typeOnlyName?
  grind

@[grind .]
theorem bounded_importHead : importHead.Bounded size := by
  unfold importHead
  grind

@[grind .]
theorem bounded_importedNames (head : ImportHead) : (importedNames head).Bounded size := by
  unfold importedNames
  grind

@[grind .]
theorem bounded_importAlias : importAlias.Bounded size := by
  unfold importAlias
  refine bounded_bind (bounded_expect _) fun _ _ => ?_
  refine bounded_bind (bounded_atWord _) fun _ _ => ?_
  refine bounded_bind bounded_peek fun _ _ => ?_
  extract_lets later
  have laterBounded (u : Unit) : (later u).Bounded size := by
    unfold later
    exact bounded_bind bounded_endStatement fun _ _ => bounded_pure True.intro
  split
  · refine bounded_bind bounded_advance fun _ _ => ?_
    refine bounded_bind bounded_advance fun _ _ => ?_
    refine bounded_bind bounded_moduleName fun _ _ => ?_
    exact bounded_bind (bounded_expect _) fun _ _ => laterBounded ()
  · exact bounded_bind (bounded_entityName _) fun _ _ => laterBounded ()

@[grind ←]
theorem bounded_checkExported {part : ClausePart} (within : Within size part) :
    (checkExported part).Bounded size := by
  unfold checkExported
  grind

variable (bounded : g.Bounded size)

include bounded

private theorem bounded_importAttributes : (importAttributes g).Bounded size := by
  unfold importAttributes
  grind [bounded_objectLiteral bounded]

private theorem bounded_fromModule : (fromModule g).Bounded size := by
  unfold fromModule
  grind [bounded_importAttributes bounded]

private theorem bounded_importItem : (importItem g).Bounded size := by
  unfold importItem
  refine bounded_bind (bounded_expectWord _) fun _ _ => ?_
  refine bounded_bind bounded_token fun t within => ?_
  split
  · refine bounded_bind bounded_moduleName fun _ _ => ?_
    refine bounded_bind (bounded_importAttributes bounded) fun _ _ => ?_
    exact bounded_bind (bounded_discard bounded_semicolon) fun _ _ => bounded_pure True.intro
  · refine bounded_bind bounded_token fun _ within => ?_
    extract_lets later
    have laterBounded (found : ImportHead) (within : Within size found) :
        (later found).Bounded size := by
      unfold later
      extract_lets onward
      have onwardBounded (u : Unit) : (onward u).Bounded size := by
        unfold onward
        refine bounded_bind (bounded_importedNames _) fun _ _ => ?_
        exact bounded_bind (bounded_fromModule bounded) fun _ _ => bounded_pure True.intro
      split
      · refine bounded_bind bounded_isTyped fun _ _ => ?_
        refine bounded_bind (bounded_atPunct _) fun _ _ => ?_
        split
        · exact bounded_importAlias
        · refine bounded_bind (bounded_atWord _) fun _ _ => ?_
          split
          · exact onwardBounded ()
          · exact bounded_bind (bounded_expect _) fun _ _ => onwardBounded ()
      · exact onwardBounded ()
    split
    · exact bounded_bind bounded_importHead fun head within => laterBounded _ within
    · exact bounded_bind (bounded_pure True.intro) fun _ within => laterBounded _ within

private theorem bounded_exportClause (isTypeOnly : Bool) :
    (exportClause g isTypeOnly).Bounded size := by
  unfold exportClause
  refine bounded_bind (bounded_expect _) fun _ _ => ?_
  refine bounded_bind (bounded_commaList (bounded_clausePart _ bounded_clauseName))
    fun parts within => ?_
  extract_lets specifiers
  have specifiersWithin : Within size specifiers := by grind
  refine bounded_bind (bounded_atWord _) fun _ _ => ?_
  split
  · exact bounded_bind (bounded_fromModule bounded) fun _ _ => bounded_pure specifiersWithin
  · refine bounded_bind (bounded_forM (by grind) within) fun _ _ => ?_
    refine bounded_bind (bounded_discard bounded_semicolon) fun _ _ => ?_
    exact bounded_pure specifiersWithin

private theorem bounded_exportAll (isTypeOnly : Bool) : (exportAll g isTypeOnly).Bounded size := by
  unfold exportAll
  grind [bounded_fromModule bounded]

private theorem bounded_exportDefault : (exportDefault g).Bounded size := by
  unfold exportDefault
  refine bounded_bind (bounded_expectWord _) fun _ _ => ?_
  refine bounded_bind bounded_token fun t within => ?_
  refine bounded_bind bounded_peek fun next within => ?_
  refine bounded_bind bounded_isTyped fun typed _ => ?_
  split
  · refine bounded_bind bounded_advance fun _ _ => ?_
    refine bounded_bind (bounded_classFrom bounded _ _) fun found within => ?_
    exact bounded_pure within_none
  · extract_lets isMarked later
    have laterBounded (u : Unit) : (later u).Bounded size := by
      unfold later
      refine bounded_bind (bounded_eatTypedWord _) fun _ _ => ?_
      split
      · refine bounded_bind (bounded_discard (bounded_interfaceTail bounded)) fun _ _ => ?_
        exact bounded_pure within_none
      · refine bounded_bind (bounded_atWord _) fun _ _ => ?_
        split
        · refine bounded_bind (bounded_classFrom bounded _ _) fun found within => ?_
          exact bounded_pure within_none
        · refine bounded_bind bounded_atAsyncFunction fun _ _ => ?_
          split
          · refine bounded_bind bounded_advance fun _ _ => ?_
            refine bounded_bind (bounded_functionFrom bounded _ _ (by grind)) fun found within => ?_
            exact bounded_pure within_none
          · refine bounded_bind (bounded_atWord _) fun _ _ => ?_
            split
            · refine bounded_bind (bounded_functionFrom bounded _ _ (by grind))
                fun found within => ?_
              exact bounded_pure within_none
            · refine bounded_bind bounded.assignment fun e within => ?_
              exact bounded_bind bounded_endStatement fun _ _ => bounded_pure (by grind)
    split
    · refine bounded_bind (bounded_note (by grind)) fun _ _ => ?_
      exact bounded_bind bounded_advance fun _ _ => laterBounded ()
    · exact laterBounded ()

private theorem bounded_typedExport? : (typedExport? g).Bounded size := by
  unfold typedExport?
  refine bounded_bind bounded_isTyped fun _ _ => ?_
  split
  · refine bounded_bind (bounded_eatWord _) fun _ _ => ?_
    split
    · refine bounded_bind (bounded_atWord _) fun _ _ => ?_
      refine bounded_bind bounded_peek fun t within => ?_
      extract_lets later
      have laterBounded (u : Unit) : (later u).Bounded size := by
        unfold later
        refine bounded_bind (bounded_discard bounded_anyIdentifier) fun _ _ => ?_
        refine bounded_bind bounded_importAlias fun _ within => ?_
        exact bounded_pure (within_some.2 within)
      split
      · exact bounded_bind bounded_advance fun _ _ => laterBounded ()
      · exact laterBounded ()
    · refine bounded_bind (bounded_eat _) fun _ _ => ?_
      split
      · refine bounded_bind (bounded_discard bounded.expression) fun _ _ => ?_
        exact bounded_bind bounded_endStatement fun _ _ => bounded_pure (by grind)
      · refine bounded_bind (bounded_eatWord _) fun _ _ => ?_
        split
        · refine bounded_bind (bounded_expectWord _) fun _ _ => ?_
          refine bounded_bind (bounded_discard bounded_identifier) fun _ _ => ?_
          exact bounded_bind bounded_endStatement fun _ _ => bounded_pure (by grind)
        · exact bounded_pure within_none
  · exact bounded_pure within_none

private theorem bounded_typedExportDeclaration? : (typedExportDeclaration? g).Bounded size := by
  unfold typedExportDeclaration?
  refine bounded_bind bounded_isTyped fun _ _ => ?_
  split
  · refine bounded_bind bounded_here fun _ inside => ?_
    refine bounded_bind (bounded_eatWord _) fun _ _ => ?_
    extract_lets later
    have laterBounded (u : Unit) : (later u).Bounded size := by
      unfold later
      refine bounded_bind (bounded_trial (bounded_wordedDeclaration? bounded))
        fun _ within => ?_
      split
      · exact bounded_pure (within_some.1 within)
      · exact bounded_pure within_none
    split
    · refine bounded_bind (bounded_ambientDeclaration? bounded inside) fun _ within => ?_
      split
      · exact bounded_pure within
      · exact laterBounded ()
    · exact laterBounded ()
  · exact bounded_pure within_none

private theorem bounded_exportedDeclaration? : (exportedDeclaration? g).Bounded size := by
  unfold exportedDeclaration?
  have classDeclaration := bounded_classDeclaration bounded
  have functionDeclaration := @bounded_functionDeclaration size g bounded
  grind [bounded_constantEnum bounded, bounded_variableDeclaration bounded]

private theorem bounded_exportItem : (exportItem g).Bounded size := by
  unfold exportItem
  refine bounded_bind (bounded_expectWord _) fun _ _ => ?_
  refine bounded_bind bounded_here fun start inside => ?_
  refine bounded_bind (bounded_typedExportDeclaration? bounded) fun found within => ?_
  split
  · exact bounded_pure (by grind)
  · refine bounded_bind (bounded_typedExport? bounded) fun found within => ?_
    split
    · exact bounded_pure (within_some.1 within)
    · refine bounded_bind (bounded_eatTypedWord _) fun isTypeOnly _ => ?_
      extract_lets later
      have laterBounded (u : Unit) : (later u).Bounded size := by
        unfold later
        refine bounded_bind (bounded_atPunct _) fun _ _ => ?_
        split
        · exact bounded_exportAll bounded _
        · exact bounded_exportClause bounded _
      split
      · refine bounded_bind (bounded_atWord _) fun _ _ => ?_
        split
        · exact bounded_exportDefault bounded
        · refine bounded_bind (bounded_exportedDeclaration? bounded) fun found within => ?_
          split
          · exact bounded_pure (by grind)
          · exact laterBounded ()
      · exact laterBounded ()

omit bounded in
@[grind .]
private theorem bounded_atImport : atImport.Bounded size := by
  unfold atImport
  grind

private theorem bounded_moduleItem : (moduleItem g).Bounded size := by
  unfold moduleItem
  refine bounded_bind bounded_here fun start inside => ?_
  refine bounded_bind bounded_atImport fun _ _ => ?_
  extract_lets later
  have laterBounded (found : ItemKind) (within : Within size found) :
      (later found).Bounded size := by
    unfold later
    exact bounded_bind (bounded_spanFrom inside) fun found within => bounded_pure (by grind)
  split
  · exact bounded_bind (bounded_importItem bounded) fun kind within => laterBounded _ within
  · refine bounded_bind (bounded_atWord _) fun _ _ => ?_
    split
    · exact bounded_bind (bounded_exportItem bounded) fun kind within => laterBounded _ within
    · refine bounded_bind (bounded_statement bounded _) fun _ within => ?_
      exact bounded_bind (bounded_pure within) fun _ within => laterBounded _ within

/-- The rules stay in the text if the phrases that they ask for do. -/
theorem bounded_rules : Bounded size ⟨fun phrase => g.rule phrase⟩ where
  typeExpression := bounded_typeExpression bounded
  unconditionalType := bounded_unconditionalType bounded
  binding := bounded_binding bounded
  assignment := bounded_assignment bounded
  assignmentTo _ within := bounded_assignmentTo bounded within
  expression := bounded_expression bounded
  joined := bounded_joined bounded
  operators _ above within := bounded_operators bounded above within
  object := bounded_objectLiteral bounded
  unary := bounded_unary bounded
  access := bounded_access bounded
  callee := bounded_callee bounded
  qualified _ within := bounded_qualified bounded within
  statement listed := bounded_statement bounded listed
  moduleItem := bounded_moduleItem bounded

omit bounded in
/-- So does the grammar, however deep phrases are nested. -/
theorem bounded_grammar (depth : Nat) : (grammar depth).Bounded size := by
  induction depth with
  | zero => constructor <;> intros <;> exact bounded_fail
  | succ depth ih => exact bounded_rules ih

omit bounded in
/-- Items that are read in texts of their own lie in the text around them. -/
theorem within_readItems (depth limit : Nat) (context : Context) (strict : Bool) {cursor : Cursor}
    (sound : cursor.Sound size) :
    (readItems (grammar depth) context limit strict cursor).Within size := by
  induction limit generalizing strict cursor with
  | zero => exact ⟨sound.token.1, sound⟩
  | succ limit ih =>
    unfold readItems
    split
    · exact ⟨within_nil, sound⟩
    split
    · rename_i fault invalid
      exact ⟨sound.token.2.2.1 fault invalid, sound⟩
    have inside : byteSize cursor.text + cursor.token.start ≤ size :=
      Nat.add_comm .. ▸ sound.fits.token
    have read := bounded_moduleItem (bounded_grammar depth) context _
      (Cursor.sound_standing strict cursor.text)
    dsimp only
    split
    · rename_i fault next found
      rw [found] at read
      exact ⟨Script.within_add inside read.1, sound.rejoin read.2⟩
    · rename_i item next found
      rw [found] at read
      have others := ih true (sound.rejoin read.2)
      split
      · rename_i fault last found
        rw [found] at others
        exact others
      · rename_i later last found
        rw [found] at others
        exact ⟨within_cons.2 ⟨within_item_shift inside read.1, others.1⟩, others.2⟩

end Grammar

/-- The first token of a script lies in it. -/
theorem sound_first {size : Nat} {text : List Char} (inside : byteSize text ≤ size) :
    (Cursor.first text).Sound size := by
  obtain ⟨strict, offset, rest, first, before, rfl, rfl⟩ := exists_first text
  rw [byteSize_append] at inside
  exact first ▸ Cursor.sound_start strict inside

private theorem byteSize_withoutMark_le (text : List Char) :
    byteSize (withoutMark text) ≤ byteSize text := by
  unfold withoutMark
  split
  · exact Nat.le_add_left _ _
  · exact Nat.le_refl _

/-- All that is told of a script lies in it, whether it is accepted or refused. -/
theorem within_parse (typed : Bool) (source : String) :
    match parse typed source with
    | .ok outline => Within source.utf8ByteSize outline.items
    | .error error => error.offset ≤ source.utf8ByteSize := by
  have start : (Cursor.first (withoutMark source.toList)).Sound source.utf8ByteSize := by
    apply sound_first
    rw [← byteSize_toList]
    exact byteSize_withoutMark_le _
  have read := Grammar.within_readItems plenty
    ((Cursor.first (withoutMark source.toList)).text.length + 1) (.top typed)
    (isMarkedToRun (withoutMark source.toList)) start
  unfold parse readText
  dsimp only
  cases found : readItems (grammar plenty) (.top typed)
      ((Cursor.first (withoutMark source.toList)).text.length + 1)
      (isMarkedToRun (withoutMark source.toList)) (.first (withoutMark source.toList)) with
  | error offset next =>
    rw [found] at read
    exact read.1
  | ok items next =>
    rw [found] at read
    have noted : Within source.utf8ByteSize next.faults.reverse := within_reverse.2 read.2.faults
    dsimp only
    cases faults : next.faults.reverse with
    | nil => exact read.1
    | cons first later =>
      rw [faults] at noted
      exact (within_cons.1 noted).1

section

variable {typed : Bool} {source : String}

/-- All offsets in the outline of a script that is accepted lie in the script. -/
theorem within_of_parse {outline : Outline} (accepted : parse typed source = .ok outline) :
    Within source.utf8ByteSize outline.items := by
  have within := within_parse typed source
  rwa [accepted] at within

/-- A script that is refused is at fault within its text, or at the end of it. -/
theorem le_of_parse_error {error : ScriptError} (refused : parse typed source = .error error) :
    error.offset ≤ source.utf8ByteSize := by
  have within := within_parse typed source
  rwa [refused] at within

end

end TypedSvelte.Script
