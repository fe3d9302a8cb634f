import TypedSvelte.Proofs.Component.ForwardDeclarations
import TypedSvelte.Proofs.Script.Gaps
import TypedSvelte.Proofs.Script.SettledItems

/-!
# The statements of the instance script in the module

In the module the instance script has lost its imports and export clauses, exported declarations
have lost what was in front of them, and names have been declared. `modulePassages` says which
statements are meant to be there, up to the one that the template becomes. Whether they are depends
on what each is followed by (`statements_survive_iff`): a statement that used to end at a line break
may go on with what follows it now, and the comment behind the last one may take in the semicolon
that is put there. That semicolon is a token unless the script ends in a comment that only a line
break can end (`semicolonStands`). A statement is safe if the reader knows it by its own text, or, in
the script, looked at nothing behind the place up to which the module goes on as the script does
(`reads_of_readsItself`).
-/
namespace TypedSvelte

namespace Component

open Markup Script

/-- What becomes of the semicolon that is put behind the script. If all items end in `body`, and what
stands behind is white space and comments, the semicolon is the next token behind the items unless
these end in a comment that only a line break can end. Then the next token is the parenthesis that
begins the template, on the next line. -/
def SemicolonStands (content text template : String) (items : List Item) : Prop :=
  ∀ body behind : String, content = body ++ behind → body ≠ "" →
    (∀ item ∈ items, item.keptTo ≤ body.utf8ByteSize) →
    (lex true body.utf8ByteSize behind.toList).token.kind = .endOfText →
    ∃ kept, text = kept ++ behind ∧ ∀ offset,
      let next := (lex true offset (behind ++ ";\n" ++ template ++ "\n").toList).token
      if endsInLine behind.toList then next.kind = .punct "(" ∧ next.afterBreak = true
      else next.kind = .punct ";"

section

variable {content body behind : String} {isDeclared : String → Bool} {items : List Item}

/-- From a place in front of the next item on, the text of the module ends as the script does. -/
private theorem exists_textFrom_of_split (split : content = body ++ behind)
    (inOrder : InOrder content items) (later : ∀ item ∈ items, item.keptTo ≤ body.utf8ByteSize)
    {start : Nat} (here : IsCut content start) (before : start ≤ nextStart content items)
    (inside : start ≤ body.utf8ByteSize) (earlier : List Item) :
    ∃ kept, (Span.mk start (nextStart content items)).text content ++
      textFrom content isDeclared earlier items = kept ++ behind := by
  induction items generalizing start earlier with
  | nil =>
    have cut : IsCut content body.utf8ByteSize := isCut_iff.2 ⟨body, behind, split, rfl⟩
    have last := isCut_nextStart inOrder
    have tail : (Span.mk body.utf8ByteSize (nextStart content [])).text content = behind := by
      have slice : slice? content body.utf8ByteSize (nextStart content []) = some behind := by
        refine (slice?_eq_some_iff _ _ _ _).2 ⟨body, "", ?_, rfl, ?_⟩
        · rw [String.append_empty, split]
        · rw [nextStart, split, String.utf8ByteSize_append]
      rw [Span.text, slice, Option.getD_some]
    refine ⟨(Span.mk start body.utf8ByteSize).text content, ?_⟩
    have whole := text_append here cut last inside cut.le
    rw [textFrom, String.append_empty, ← whole, tail]
  | cons item items ih =>
    obtain ⟨atItem, later⟩ := List.forall_mem_cons.1 later
    have forward : item.keptFrom ≤ item.keptTo := Nat.le_max_left ..
    obtain ⟨kept, same⟩ := ih inOrder.tail later (inOrder.keptCut item List.mem_cons_self)
      (Nat.le_trans forward (keptTo_le_nextStart inOrder)) (Nat.le_trans forward atItem)
      (earlier ++ [item])
    rw [textFrom]
    refine ⟨(Span.mk start item.span.start).text content ++
      forwardDeclaration isDeclared earlier item ++ kept, ?_⟩
    simp only [nextStart, String.append_assoc, ← same]

/-- The text of the module ends as the script does. -/
theorem exists_kept_of_split (split : content = body ++ behind) (inOrder : InOrder content items)
    (later : ∀ item ∈ items, item.keptTo ≤ body.utf8ByteSize) :
    ∃ kept, instanceText content isDeclared items = kept ++ behind :=
  exists_textFrom_of_split split inOrder later (isCut_iff.2 ⟨"", content, String.empty_append.symm, rfl⟩)
    (Nat.zero_le _) (Nat.zero_le _) []

theorem semicolonStands {source : String} (parts : Parts) (inOrder : InOrder content items) :
    SemicolonStands content (instanceText content isDeclared items) (parts.templateStatement source)
      items := by
  intro body behind split filled later tokenless
  obtain ⟨kept, text⟩ := exists_kept_of_split split inOrder later
  refine ⟨kept, text, fun offset => ?_⟩
  have behindBody : body.utf8ByteSize ≠ 0 :=
    fun empty => filled (String.utf8ByteSize_eq_zero_iff.1 empty)
  obtain ⟨broken, passed⟩ := openGap?_of_tokenless behindBody tokenless
  let nodes := Draft.emittedChars source (nodesPieces source parts.fragment)
  have ending : (behind ++ ";\n" ++ parts.templateStatement source ++ "\n").toList =
      behind.toList ++ ';' :: '\n' :: '(' :: ("() => \x7b\n".toList ++ nodes ++ "\x7d);\n".toList) := by
    simp [Parts.templateStatement, nodes]
  rw [ending]
  exact lex_append_gap passed true offset _

end

end Component

namespace Script

/-- What is kept of an item as a statement, with offsets that count from where it begins: nothing of
imports and export clauses, and of an exported declaration only the declaration. -/
def Item.kept? (item : Item) : Option ItemKind :=
  let kind? : Option ItemKind :=
    match item.kind with
    | .imports _ | .exportClause _ _ _ => none
    | .exportDeclaration _ declared => some (.statement (.declaration declared))
    | .statement _ | .exportAll | .exportDefault _ _ | .other => some item.kind
  kind?.map (·.move (· - item.keptFrom))

/-- Nothing of the item is left out. -/
def Item.isWhole (item : Item) : Bool :=
  match item.kind with
  | .imports _ | .exportClause _ _ _ | .exportDeclaration _ _ => false
  | .statement _ | .exportAll | .exportDefault _ _ | .other => true

theorem Item.keptFrom_of_isWhole {item : Item} (whole : item.isWhole = true) :
    item.keptFrom = item.span.start := by
  obtain ⟨span, kind⟩ := item
  cases kind with
  | imports _ | exportClause _ _ _ | exportDeclaration _ _ => cases whole
  | _ => rfl

/-- What is kept of an item of which nothing is left out. -/
theorem Item.kept?_of_isWhole {item : Item} (whole : item.isWhole = true) :
    item.kept? = some (item.kind.move (· - item.span.start)) := by
  have place := keptFrom_of_isWhole whole
  unfold kept?
  rw [place]
  obtain ⟨span, kind⟩ := item
  cases kind with
  | imports _ | exportClause _ _ _ | exportDeclaration _ _ => cases whole
  | _ => rfl

def Passage.semicolon : Passage := .statement [';'] (.statement .other)

/-- The same passages, but for semicolons that are no statements of their own: one behind a statement
may end it, and one behind the beginning of a comment is part of that. -/
inductive Loses : List Passage → List Passage → Prop
  | done : Loses [] []
  | keep {later others : List Passage} (passage : Passage) (loses : Loses later others) :
      Loses (passage :: later) (passage :: others)
  | takenIn {later others between : List Passage} (text : List Char) (kind : ItemKind)
      (gaps : ∀ passage ∈ between, passage.isGap = true) (loses : Loses later others) :
      Loses (.statement text kind :: (between ++ .semicolon :: later))
        (.statement (text ++ (spell between ++ [';'])) kind :: others)
  | hidden {later others : List Passage} (before behind : List Char) (loses : Loses later others) :
      Loses (.gap before :: .semicolon :: .gap behind :: later)
        (.gap (before ++ ';' :: behind) :: others)

theorem spell_append (first second : List Passage) : spell (first ++ second) = spell first ++ spell second :=
  List.flatMap_append

theorem Loses.refl (passages : List Passage) : Loses passages passages := by
  induction passages with
  | nil => exact .done
  | cons passage later ih => exact .keep passage ih

/-- The text is the same. -/
theorem Loses.spell_eq {passages others : List Passage} (loses : Loses passages others) :
    spell others = spell passages := by
  induction loses with
  | done => rfl
  | keep passage loses ih => rw [spell_cons, spell_cons, ih]
  | takenIn text kind gaps loses ih =>
    simp only [spell_cons, spell_append, ih, Passage.chars, Passage.semicolon, List.append_assoc]
  | hidden before behind loses ih =>
    simp only [spell_cons, ih, Passage.chars, Passage.semicolon, List.append_assoc, List.cons_append,
      List.nil_append]

end Script

namespace Component

open Markup Script

/-- The statement `let name;` with the line break behind it. -/
def declarationPassages (name : String) : List Passage :=
  let place : Span := ⟨4, 4 + name.utf8ByteSize⟩
  [.statement ("let " ++ name ++ ";").toList
    (.statement (.declaration (.bindings [⟨.name place name none, none⟩]))), .gap ['\n']]

def keptText (content : String) (item : Item) : List Char :=
  ((Span.mk item.keptFrom item.keptTo).text content).toList

/-- What is meant to be in the module from an item on. -/
def passagesFrom (content : String) (isDeclared : String → Bool) (earlier : List Item) :
    List Item → List Passage
  | [] => []
  | item :: later =>
    ((forwardName? isDeclared earlier item).map declarationPassages).getD []
      ++ (item.kept?.map (Passage.statement (keptText content item))).toList
      ++ .gap ((Span.mk item.keptTo (nextStart content later)).text content).toList
      :: passagesFrom content isDeclared (earlier ++ [item]) later

/-- What ends the script, and the template as a statement of its own. -/
def endPassages (template : String) (arrow : FunctionShape) : List Passage :=
  [.semicolon, .gap ['\n'], .statement template.toList (.statement (.expression (.group (.arrow arrow)))),
    .gap ['\n']]

/-- What is meant to be in the module between the header of `render` and the object that it
returns. -/
def modulePassages (content : String) (isDeclared : String → Bool) (items : List Item)
    (template : String) (arrow : FunctionShape) : List Passage :=
  .gap ((Span.mk 0 (nextStart content items)).text content).toList
    :: passagesFrom content isDeclared [] items ++ endPassages template arrow

/-- Up to where the module goes on as the script does, from a place in front of these items. -/
def sameUntil (content : String) (isDeclared : String → Bool) (earlier : List Item) : List Item → Nat
  | [] => content.utf8ByteSize
  | item :: later =>
    if item.isWhole = true ∧ forwardName? isDeclared earlier item = none then
      sameUntil content isDeclared (earlier ++ [item]) later
    else item.span.start

/-- The text of the module behind what is kept of an item. -/
def textBehind (content : String) (isDeclared : String → Bool) (earlier : List Item) (item : Item)
    (later : List Item) (template : String) : String :=
  (Span.mk item.keptTo (nextStart content later)).text content
    ++ textFrom content isDeclared (earlier ++ [item]) later ++ ";\n" ++ template ++ "\n"

section

variable {content : String} {isDeclared : String → Bool} {earlier items later : List Item} {item : Item}

private theorem spell_declarationPassages (isDeclared : String → Bool) (earlier : List Item)
    (item : Item) : spell (((forwardName? isDeclared earlier item).map declarationPassages).getD []) =
      (forwardDeclaration isDeclared earlier item).toList := by
  unfold forwardDeclaration
  cases forwardName? isDeclared earlier item with
  | none => rfl
  | some name => simp [declarationPassages, declarationLine, spell, Passage.chars]

private theorem spell_kept (cut : IsCut content item.keptFrom) :
    spell (item.kept?.map (Passage.statement (keptText content item))).toList =
      keptText content item := by
  cases kept : item.kept? with
  | some kind => exact List.append_nil _
  | none =>
    have ends : item.keptTo = item.keptFrom := by
      obtain ⟨span, kind⟩ := item
      cases kind with
      | imports _ | exportClause _ _ _ => exact Nat.max_self _
      | _ => cases kept
    rw [keptText, ends, text_empty cut]
    rfl

private theorem spell_passagesFrom (inOrder : InOrder content items) :
    spell (passagesFrom content isDeclared earlier items) =
      (textFrom content isDeclared earlier items).toList := by
  induction items generalizing earlier with
  | nil => rfl
  | cons item later ih =>
    have cut := inOrder.keptCut item List.mem_cons_self
    have text := text_append cut (inOrder.endCut item List.mem_cons_self)
      (isCut_nextStart inOrder.tail) (Nat.le_max_left _ _) (keptTo_le_nextStart inOrder)
    rw [passagesFrom, spell_append, spell_append, spell_cons, spell_declarationPassages,
      spell_kept cut, ih inOrder.tail, textFrom, ← text]
    simp only [String.toList_append, Passage.chars, keptText, List.append_assoc]

/-- The passages are the text of the module. -/
theorem spell_modulePassages (inOrder : InOrder content items) (template : String)
    (arrow : FunctionShape) : spell (modulePassages content isDeclared items template arrow) =
      (instanceText content isDeclared items ++ ";\n" ++ template ++ "\n").toList := by
  rw [modulePassages, List.cons_append, spell_cons, spell_append, spell_passagesFrom inOrder, instanceText]
  simp [endPassages, spell, Passage.chars, Passage.semicolon]

/-- From a place in front of an item on, the module has the text of the script up to `sameUntil`. -/
private theorem textFrom_same (isDeclared : String → Bool) (earlier : List Item)
    (inOrder : InOrder content later) {start : Nat} (here : IsCut content start)
    (before : start ≤ nextStart content later) :
    IsCut content (sameUntil content isDeclared earlier later) ∧
      start ≤ sameUntil content isDeclared earlier later ∧
      ∃ rest, (Span.mk start (nextStart content later)).text content ++
          textFrom content isDeclared earlier later =
        (Span.mk start (sameUntil content isDeclared earlier later)).text content ++ rest := by
  induction later generalizing earlier with
  | nil => exact ⟨isCut_nextStart inOrder, before, "", rfl⟩
  | cons item later ih =>
    rw [sameUntil]
    split
    · rename_i same
      have whole := text_append here (inOrder.startCut item List.mem_cons_self)
        (isCut_nextStart inOrder.tail) before
        (Nat.le_trans (inOrder.forward item List.mem_cons_self)
          (Nat.le_trans (Nat.le_max_left _ _) (keptTo_le_nextStart inOrder)))
      have onward := Nat.le_trans before (Nat.le_trans (inOrder.forward item List.mem_cons_self)
        (Nat.le_trans (Nat.le_max_left _ _) (keptTo_le_nextStart inOrder)))
      obtain ⟨cut, ahead, rest, parts⟩ := ih (earlier ++ [item]) inOrder.tail onward
      refine ⟨cut, ahead, rest, ?_⟩
      rw [textFrom, forwardDeclaration, same.2, Item.keptFrom_of_isWhole same.1, ← parts, ← whole]
      simp [nextStart, String.append_assoc]
    · exact ⟨inOrder.startCut item List.mem_cons_self, before, _, rfl⟩

end

/-- Nothing is left out of the item, and the reader, in the script, looked at nothing behind the place
up to which the module goes on as the script does. -/
structure IsSettled (typed : Bool) (content : String) (isDeclared : String → Bool)
    (earlier : List Item) (item : Item) (later : List Item) : Prop where
  whole : item.isWhole = true
  settledBy : item.SettledBy typed content earlier (sameUntil content isDeclared (earlier ++ [item]) later)

/-- Whether the text is a statement of this kind in the module is told without a look at what follows it
there: the reader knows it by its own text, or it is what is kept of a settled item. -/
def ReadsItself (typed : Bool) (content : String) (isDeclared : String → Bool) (items : List Item)
    (template : String) (text : List Char) (kind : ItemKind) (later : List Passage) : Prop :=
  StandsAlone typed text kind ∨ ∃ earlier item others, items = earlier ++ item :: others ∧
    IsSettled typed content isDeclared earlier item others ∧ item.kept? = some kind ∧
    text = keptText content item ∧
    spell later = (textBehind content isDeclared earlier item others template).toList

section

variable {typed : Bool} {content template : String} {isDeclared : String → Bool} {outline : Outline}
  {earlier others : List Item} {item : Item} {kind : ItemKind} {passages later : List Passage}

/-- A settled item of the script is read as itself. -/
private theorem readsAs_of_isSettled (read : Script.parse typed content = .ok outline)
    (unmarked : content.toList.head? ≠ some '\uFEFF') (parts : outline.items = earlier ++ item :: others)
    (isSettled : IsSettled typed content isDeclared earlier item others)
    (isKept : item.kept? = some kind)
    (behind : spell later = (textBehind content isDeclared earlier item others template).toList)
    (spaced : Spaced (.statement (keptText content item) kind :: later)) (strict : Bool) :
    keptText content item ≠ [] ∧
      (grammar plenty).ReadsAs (.top typed) strict (keptText content item) kind later := by
  obtain ⟨whole, settledBy⟩ := isSettled
  have inOrder := (parts ▸ inOrder_of_parse unmarked read).right
  have atStart := Item.keptFrom_of_isWhole whole
  have atEnd : item.keptTo = item.span.stop := by
    rw [Item.keptTo, atStart]
    exact Nat.max_eq_right (Nat.le_of_lt settledBy.filled)
  have ends := inOrder.endCut item List.mem_cons_self
  obtain ⟨cut, ahead, more, goesOn⟩ :=
    textFrom_same isDeclared (earlier ++ [item]) inOrder.tail ends (keptTo_le_nextStart inOrder)
  have text : keptText content item = (item.span.text content).toList := by
    rw [keptText, atStart, atEnd]
  obtain rfl : item.kind.move (· - item.span.start) = kind :=
    Option.some.inj ((Item.kept?_of_isWhole whole).symm.trans isKept)
  have module : spell later =
      ((Span.mk item.span.stop (sameUntil content isDeclared (earlier ++ [item]) others)).text
        content).toList ++ (more ++ ";\n" ++ template ++ "\n").toList := by
    rw [behind, textBehind, goesOn, atEnd]
    simp only [String.toList_append, List.append_assoc]
  rw [atEnd] at ends ahead
  rw [text] at spaced ⊢
  exact settledBy.readsAs read unmarked parts ends cut ahead module spaced strict

/-- If no gap takes in what comes behind it, it is enough that each statement is read by itself. -/
private theorem reads_of_readsItself (read : Script.parse typed content = .ok outline)
    (unmarked : content.toList.head? ≠ some '\uFEFF') (spaced : Spaced passages)
    (each : ∀ before text kind later, passages = before ++ .statement text kind :: later →
      ReadsItself typed content isDeclared outline.items template text kind later) (strict : Bool) :
    (grammar plenty).Reads (.top typed) strict passages := by
  induction passages generalizing strict with
  | nil => exact True.intro
  | cons passage later ih =>
    have behind (before : List Passage) (text : List Char) (kind : ItemKind) (others : List Passage)
        (parts : later = before ++ .statement text kind :: others) :=
      each (passage :: before) text kind others (congrArg (passage :: ·) parts)
    cases passage with
    | gap text => exact ih spaced.2 behind strict
    | statement text kind =>
      have others := ih spaced.2 behind true
      obtain alone | ⟨earlier, item, after, parts, isSettled, isKept, rfl, following⟩ :=
        each [] text kind later rfl
      · exact ⟨alone.filled, alone.readsAs spaced strict, others⟩
      · obtain ⟨filled, reads⟩ :=
          readsAs_of_isSettled read unmarked parts isSettled isKept following spaced strict
        exact ⟨filled, reads, others⟩

end

/-- The items are a statement and an import behind it. -/
private def areStatementAndImport : List Item → Bool
  | [⟨⟨0, 9⟩, .statement .other⟩, ⟨⟨10, 27⟩, .imports _⟩] => true
  | _ => false

private theorem eq_of_areStatementAndImport {items : List Item}
    (check : areStatementAndImport items = true) : ∃ locals,
      items = [⟨⟨0, 9⟩, .statement .other⟩, ⟨⟨10, 27⟩, .imports locals⟩] := by
  unfold areStatementAndImport at check
  split at check
  · exact ⟨_, rfl⟩
  · cases check

/-- The items are a statement, a semicolon and an arrow function in parentheses. -/
private def areStatementAndTemplate : List Item → Bool
  | [⟨⟨0, 9⟩, .statement .other⟩, ⟨⟨10, 11⟩, .statement .other⟩, ⟨⟨12, 24⟩,
      .statement (.expression (.group (.arrow ⟨13, [], false, false, false, 19⟩)))⟩] => true
  | _ => false

private theorem eq_of_areStatementAndTemplate {items : List Item}
    (check : areStatementAndTemplate items = true) : items =
      [⟨⟨0, 9⟩, .statement .other⟩, ⟨⟨10, 11⟩, .statement .other⟩, ⟨⟨12, 24⟩,
        .statement (.expression (.group (.arrow ⟨13, [], false, false, false, 19⟩)))⟩] := by
  unfold areStatementAndTemplate at check
  split at check
  · rfl
  · cases check

def itemCount (text : String) : Option Nat :=
  (Script.parse false text).toOption.map (·.items.length)

private theorem exists_code {source before text after : String}
    (check : (transpile source).toOption.any (fun t => t.code == before ++ text ++ after) = true) :
    ∃ t before after, transpile source = .ok t ∧ t.code = before ++ text ++ after := by
  obtain ⟨t, made, code⟩ := exists_ok_of_check check
  exact ⟨t, before, after, made, beq_iff_eq.1 code⟩

end Component

end TypedSvelte
