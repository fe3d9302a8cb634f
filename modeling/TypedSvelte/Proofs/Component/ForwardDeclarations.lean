import TypedSvelte.Proofs.Component.InstanceScript
import TypedSvelte.Proofs.Script.ItemOrder

/-!
# Declarations of names that only reactive statements assign to

Between its header and its end, the function `render` has the text of the instance script: what is
kept of each item up to the next one, and before the first reactive statement that assigns to a name
which neither script declares, a declaration of the name (`forward_declarations`). The loop that
emits this carries a cursor and the names it has declared; `emitted_bodyPieces` is its invariant.
-/
namespace TypedSvelte.Component

open Markup Script

/-- The name that is declared before an item: the one that it assigns to, if this is not declared and
no earlier item assigns to it. -/
def forwardName? (isDeclared : String → Bool) (earlier : List Item) (item : Item) : Option String :=
  (reactiveName? item).filter fun name =>
    !isDeclared name && !earlier.any (reactiveName? · == some name)

def forwardDeclaration (isDeclared : String → Bool) (earlier : List Item) (item : Item) : String :=
  ((forwardName? isDeclared earlier item).map declarationLine).getD ""

/-- Where the next item begins, or else the script ends. -/
def nextStart (content : String) : List Item → Nat
  | [] => content.utf8ByteSize
  | item :: _ => item.span.start

/-- The text from an item on: what is kept of each item, with the declarations. -/
def textFrom (content : String) (isDeclared : String → Bool) (earlier : List Item) :
    List Item → String
  | [] => ""
  | item :: later =>
    forwardDeclaration isDeclared earlier item
      ++ (Span.mk item.keptFrom (nextStart content later)).text content
      ++ textFrom content isDeclared (earlier ++ [item]) later

def instanceText (content : String) (isDeclared : String → Bool) (items : List Item) : String :=
  (Span.mk 0 (nextStart content items)).text content ++ textFrom content isDeclared [] items

/-- The names that are declared before items, in order. -/
def forwardNames (isDeclared : String → Bool) (earlier : List Item) : List Item → List String
  | [] => []
  | item :: later =>
    (forwardName? isDeclared earlier item).toList ++ forwardNames isDeclared (earlier ++ [item]) later

private theorem any_snoc_eq (earlier : List Item) (item : Item) (name : String) :
    (earlier ++ [item]).any (reactiveName? · == some name) =
      (earlier.any (reactiveName? · == some name) || reactiveName? item == some name) := by
  rw [List.any_append, List.any_cons, List.any_nil, Bool.or_false]

/-- Every name that is assigned to and not declared is declared once, where it is first assigned
to. -/
theorem forwardNames_eq (isDeclared : String → Bool) (earlier items : List Item) :
    forwardNames isDeclared earlier items =
      ((items.filterMap reactiveName?).filter fun name =>
        !isDeclared name && !earlier.any (reactiveName? · == some name)).eraseDups := by
  induction items generalizing earlier with
  | nil => rfl
  | cons item later ih =>
    rw [forwardNames, ih, List.filterMap_cons, forwardName?]
    simp only [any_snoc_eq]
    cases target : reactiveName? item with
    | none => simp
    | some name =>
      simp only [List.filter_cons, Option.filter_some]
      by_cases new : (!isDeclared name && !earlier.any (reactiveName? · == some name)) = true
      · rw [if_pos new, if_pos new, List.eraseDups_cons, List.filter_filter]
        refine congrArg (name :: List.eraseDups ·) (List.filter_congr fun other _ => ?_)
        by_cases same : other = name
        · simp [same]
        · have apart : (name == other) = false := beq_eq_false_iff_ne.2 (Ne.symm same)
          simp [same, apart]
      · rw [if_neg new, if_neg new]
        refine congrArg List.eraseDups (List.filter_congr fun other _ => ?_)
        by_cases same : other = name
        · rw [Bool.not_eq_true] at new
          rw [same, new]
          simp
        · have apart : (name == other) = false := beq_eq_false_iff_ne.2 (Ne.symm same)
          simp [apart]

section

variable {source content : String} {base stop : Nat}

private theorem text_of_content (slice : slice? source base stop = some content) {a b : Nat}
    (first : IsCut content a) (last : IsCut content b) (ordered : a ≤ b) :
    (Span.mk (a + base) (b + base)).text source = (Span.mk a b).text content := by
  obtain ⟨part, inner⟩ := exists_slice? first last ordered
  have outer := slice?_slice? slice inner
  rw [Nat.add_comm base, Nat.add_comm base] at outer
  rw [Span.text, Span.text, inner, outer]

end

/-- The names that have been declared are those that earlier items assign to, as far as no script
declares them. -/
def Known (isDeclared : String → Bool) (forward : List String) (earlier : List Item) : Prop :=
  ∀ name, isDeclared name = false →
    forward.contains name = earlier.any (reactiveName? · == some name)

section

variable {isDeclared : String → Bool} {forward : List String} {earlier : List Item}

theorem Known.dueName?_eq (known : Known isDeclared forward earlier) (item : Item) :
    dueName? isDeclared forward item = forwardName? isDeclared earlier item := by
  rw [dueName?, forwardName?]
  refine congrArg (Option.filter · (reactiveName? item)) (funext fun name => ?_)
  cases declared : isDeclared name with
  | true => rfl
  | false =>
    rw [known name declared]
    rfl

/-- What is known after an item. -/
theorem Known.step (known : Known isDeclared forward earlier) (item : Item) :
    Known isDeclared ((dueName? isDeclared forward item).toList ++ forward) (earlier ++ [item]) := by
  intro name undeclared
  rw [any_snoc_eq, ← known name undeclared, dueName?]
  cases reactiveName? item with
  | none => simp
  | some target =>
    rw [Option.filter_some]
    by_cases same : target = name
    · cases forward.contains name <;> simp [same, undeclared]
    · cases isDeclared target || forward.contains target <;> simp [same, Ne.symm same]

end

section

variable {content : String} {item : Item} {items later : List Item}

theorem isCut_nextStart (inOrder : InOrder content items) :
    IsCut content (nextStart content items) := by
  cases items with
  | nil => exact isCut_iff.2 ⟨content, "", String.append_empty.symm, rfl⟩
  | cons item later => exact inOrder.startCut item List.mem_cons_self

theorem keptTo_le_nextStart (inOrder : InOrder content (item :: later)) :
    item.keptTo ≤ nextStart content later := by
  cases later with
  | nil => exact (inOrder.endCut item List.mem_cons_self).le
  | cons next _ => exact (List.pairwise_cons.1 inOrder.ordered).1 next List.mem_cons_self

private theorem stop_of_gap {block : ScriptBlock} {gap : Span} (found : block.gap? item = some gap) :
    gap.stop = item.keptFrom + block.base := by
  obtain ⟨span, kind⟩ := item
  cases kind with
  | imports _ | exportClause _ _ _ | exportDeclaration _ _ =>
    cases found
    rfl
  | _ => cases found

private theorem keptFrom_of_whole {block : ScriptBlock} (whole : block.gap? item = none) :
    item.keptFrom = item.span.start := by
  obtain ⟨span, kind⟩ := item
  cases kind with
  | imports _ | exportClause _ _ _ | exportDeclaration _ _ => cases whole
  | _ => rfl

end

/-- From a cursor on, the loop emits the text up to the next item, and then the text from this item
on. -/
theorem emitted_bodyPieces {source : String} {block : ScriptBlock} {stop : Nat}
    (slice : slice? source block.base stop = some block.source) (isDeclared : String → Bool)
    {items earlier : List Item} (inOrder : InOrder block.source items) {cursor : Nat}
    (here : IsCut block.source cursor) (before : cursor ≤ nextStart block.source items)
    {forward : List String} (known : Known isDeclared forward earlier) :
    Draft.emittedChars source
        (bodyPieces block isDeclared stop (cursor + block.base) forward items) =
      ((Span.mk cursor (nextStart block.source items)).text block.source
        ++ textFrom block.source isDeclared earlier items).toList := by
  have copied := text_of_content slice here (isCut_nextStart inOrder) before
  induction items generalizing earlier cursor forward with
  | nil =>
    rw [bodyPieces, textFrom, String.append_empty, ← copied, nextStart,
      Nat.add_comm block.source.utf8ByteSize, ← stop_of_slice? slice]
    exact List.append_nil _
  | cons item later ih =>
    have startCut := inOrder.startCut item List.mem_cons_self
    have keptCut := inOrder.keptCut item List.mem_cons_self
    have toNext := Nat.le_trans (Nat.le_max_left _ _) (keptTo_le_nextStart inOrder)
    have nextCut := isCut_nextStart inOrder.tail
    -- From a cursor in front of the next item, the rest is emitted as the induction says.
    have resume {cursor : Nat} (here : IsCut block.source cursor)
        (before : cursor ≤ nextStart block.source later) {forward : List String}
        (known : Known isDeclared forward (earlier ++ [item])) :=
      ih inOrder.tail here before known (text_of_content slice here nextCut before)
    have next := known.step item
    rw [textFrom, forwardDeclaration, ← known.dueName?_eq item]
    rw [nextStart] at before copied ⊢
    have place : (block.place item).start = item.span.start + block.base := rfl
    cases found : block.gap? item with
    | some gap =>
      have undue : dueName? isDeclared forward item = none := by
        rw [dueName?, reactiveName?_of_gap found, Option.filter_none]
      rw [undue, Option.toList_none, List.nil_append] at next
      rw [undue]
      rw [bodyPieces_of_gap found, stop_of_gap found, Draft.emittedChars_cons,
        resume keptCut toNext next]
      simp [Piece.emitted, place, copied]
    | none =>
      have whole := keptFrom_of_whole found
      rw [whole] at toNext ⊢
      cases due : dueName? isDeclared forward item with
      | some name =>
        rw [due, Option.toList_some, List.singleton_append] at next
        rw [bodyPieces_of_due due, Draft.emittedChars_cons, Draft.emittedChars_cons, place,
          resume startCut toNext next]
        simp [Piece.emitted, copied]
      | none =>
        rw [due, Option.toList_none, List.nil_append] at next
        rw [bodyPieces_of_whole found due, resume here (Nat.le_trans before toNext) next,
          ← text_append here startCut nextCut before toNext]
        simp

/-- What stands in the module of a component that is accepted for its instance script and its template. -/
theorem emits_instanceText {source : String} {t : Transpiled} (made : transpile source = .ok t)
    {script : Markup.Script} (found : (parse source).document.instanceScript = some script)
    (unmarked : (script.contentSpan.text source).toList.head? ≠ some '\uFEFF') :
    ∃ parts outline before, Parts.ofSource source = .ok parts ∧
      Script.parse (ScriptBlock.isTyped script) (script.contentSpan.text source) = .ok outline ∧
      let text := instanceText (script.contentSpan.text source) parts.isDeclared outline.items
      t.code = before ++ parts.header ++ text ++ ";\n"
        ++ (parts.templateStatement source ++ "\n" ++ parts.footer) ∧
      ⟨⟨before.utf8ByteSize, (before ++ parts.header).utf8ByteSize⟩, script.openTag⟩ ∈
        t.sourceMap.mappings ∧
      ⟨⟨(before ++ parts.header ++ text).utf8ByteSize,
        (before ++ parts.header ++ text ++ ";\n").utf8ByteSize⟩, script.closeTag⟩ ∈
        t.sourceMap.mappings := by
  unfold transpile at made
  obtain ⟨parts, read, made⟩ := exists_of_bind_ok made
  have reads := Parts.reads_of_ofSource read
  cases made
  obtain ⟨block, here, one⟩ := reads.exists_instanceBlock found
  obtain ⟨rfl, content, parsed⟩ := ScriptBlock.of_ofScript one
  obtain ⟨_, _, _, _, slice⟩ := (reads.stands (Or.inr here)).order
  rw [← content] at unmarked slice ⊢
  have start : IsCut block.source 0 := isCut_iff.2 ⟨"", _, String.empty_append.symm, rfl⟩
  have known : Known parts.isDeclared [] [] := fun _ _ => rfl
  have emitted := emitted_bodyPieces slice parts.isDeclared (inOrder_of_parse unmarked parsed) start
    (Nat.zero_le _) known
  rw [Nat.zero_add] at emitted
  obtain ⟨before, code, opened, closed⟩ := Parts.emits_instance here emitted
  exact ⟨parts, block.outline, before, read, parsed, code, opened, closed⟩

/-- Between its header and its end, the function `render` of every component with an instance script
that is accepted has the text of the script, with a declaration before every first reactive
statement that assigns to a name which neither script declares. These names are declared once each,
and no others are. All other text is what is kept of the items, as it stands in the script. The
script must not begin with a byte order mark, which its offsets do not count. -/
theorem forward_declarations {source : String} {t : Transpiled} (made : transpile source = .ok t)
    {script : Markup.Script} (found : (parse source).document.instanceScript = some script)
    (unmarked : (script.contentSpan.text source).toList.head? ≠ some '\uFEFF') :
    ∃ parts outline before after, Parts.ofSource source = .ok parts ∧
      Script.parse (ScriptBlock.isTyped script) (script.contentSpan.text source) = .ok outline ∧
      let text := instanceText (script.contentSpan.text source) parts.isDeclared outline.items
      t.code = before ++ parts.header ++ text ++ ";\n" ++ after ∧
      ⟨⟨before.utf8ByteSize, (before ++ parts.header).utf8ByteSize⟩, script.openTag⟩ ∈
        t.sourceMap.mappings ∧
      ⟨⟨(before ++ parts.header ++ text).utf8ByteSize,
        (before ++ parts.header ++ text ++ ";\n").utf8ByteSize⟩, script.closeTag⟩ ∈
        t.sourceMap.mappings ∧
      forwardNames parts.isDeclared [] outline.items =
        ((outline.items.filterMap reactiveName?).filter (!parts.isDeclared ·)).eraseDups := by
  obtain ⟨parts, outline, before, read, parsed, code, opened, closed⟩ :=
    emits_instanceText made found unmarked
  refine ⟨parts, outline, before, _, read, parsed, code, opened, closed, ?_⟩
  rw [forwardNames_eq]
  simp

/-- A property that a reactive statement assigns to, and a name that two of them assign to. -/
theorem forward_declarations_two :
    let source := "<script>export let a; $: b = a; $: b = 2; $: a = 3</script>"
    ∃ t before after, transpile source = .ok t ∧
      t.code = before ++ "let a; let b;\n$: b = a; $: b = 2; $: a = 3" ++ ";\n" ++ after := by
  intro source
  have checked : (transpile source).toOption.any (fun _ => true) = true ∧
      (parse source).document.instanceScript.any (fun script =>
        let content := script.contentSpan.text source
        decide (content.toList.head? ≠ some '\uFEFF') &&
          (Parts.ofSource source).toOption.any fun parts =>
            (Script.parse (ScriptBlock.isTyped script) content).toOption.any fun outline =>
              instanceText content parts.isDeclared outline.items ==
                "let a; let b;\n$: b = a; $: b = 2; $: a = 3") = true := by decide +kernel
  obtain ⟨t, made, _⟩ := exists_ok_of_check checked.1
  obtain ⟨script, found, checked⟩ := (Option.any_eq_true _ _).1 checked.2
  obtain ⟨unmarked, checked⟩ := Bool.and_eq_true_iff.1 checked
  obtain ⟨parts, outline, before, after, read, parsed, code, _⟩ :=
    forward_declarations made found (of_decide_eq_true unmarked)
  rw [read] at checked
  dsimp only [Except.toOption, Option.any] at checked
  rw [parsed] at checked
  exact ⟨t, before ++ parts.header, after, made, code.trans (by rw [eq_of_beq checked])⟩

/-- Behind a byte order mark the declaration is put three bytes too early, within the statement
before the one that it is for. -/
theorem declaration_misplaced :
    ∃ t after, transpile "<script>\uFEFFlet a; $: b = 1</script>" = .ok t ∧
      t.code = "function render() \x7b\uFEFFlet let b;\na; $: b = 1;\n" ++ after := by
  let footer := "(() => \x7b\n\x7d);\n\nreturn \x7b props: \x7b\x7d, slots: \x7b\x7d \x7d\x7d\n\n"
    ++ "export default class \x7b\n    $$prop_def = __sveltets_partial(render().props)\n"
    ++ "    $$slot_def = render().slots\n\x7d\n"
  have checked : (transpile "<script>\uFEFFlet a; $: b = 1</script>").toOption.any (fun t =>
      t.code == "function render() \x7b\uFEFFlet let b;\na; $: b = 1;\n" ++ footer) = true := by
    decide +kernel
  obtain ⟨t, made, code⟩ := exists_ok_of_check checked
  exact ⟨t, footer, made, eq_of_beq code⟩

end TypedSvelte.Component
