import TypedSvelte.Proofs.Markup.PlacedDocuments
import TypedSvelte.Proofs.Markup.RenderedBlocks

/-!
# What is ahead

The pass over a component decides by the next characters what to read. `Reading.Takes` says which of
the readers a step takes, and `Reading.step_iff` that this is all a step does.
-/
namespace TypedSvelte.Markup

open Scan

namespace Reading

/-- What follows a `<` makes a tag or a comment of it. -/
def opensTag (rest : List Char) : Bool :=
  rest.head?.any (fun d => d.isAlpha || d == '/') || "!--".toList.isPrefixOf rest

theorem textLength_cons (c : Char) (rest : List Char) : textLength (c :: rest) =
    if c == '{' || (c == '<' && opensTag rest) then 0 else textLength rest + 1 := rfl

/-- What a step does is known from the next characters and, at a closing tag, from the stack. -/
inductive Takes (r : Reading) : Reading → Prop
  | comment {rest : List Char} (ahead : r.scan.rest = '<' :: '!' :: '-' :: '-' :: rest) :
      Takes r r.readComment
  | element {c : Char} {rest : List Char} (ahead : r.scan.rest = '<' :: c :: rest)
      (letter : c.isAlpha = true) : Takes r r.readElement
  | block {rest : List Char} (ahead : r.scan.rest = '{' :: '#' :: rest) : Takes r r.readBlock
  | tag {rest : List Char} (ahead : r.scan.rest = '{' :: '@' :: rest) : Takes r r.readTag
  | mustache {rest : List Char} (ahead : r.scan.rest = '{' :: rest)
      (other : ∀ c, rest.head? = some c → c ≠ '#' ∧ c ≠ '@' ∧ c ≠ '/' ∧ c ≠ ':') :
      Takes r r.readMustache
  | text {c : Char} {rest : List Char} (ahead : r.scan.rest = c :: rest)
      (goesOn : (c == '{' || (c == '<' && opensTag rest)) = false) : Takes r r.readText
  | closer {frame : Frame} {outer : List Frame} (top : r.stack = frame :: outer)
      (closer : (r.scan.atEnd || r.scan.atCloser) = true) : Takes r (r.leave frame outer)
  | stray (top : r.stack = []) (more : r.scan.rest ≠ []) (closer : r.scan.atCloser = true) :
      Takes r r.strayCloser

variable {r next : Reading}

private theorem takes_open (more : r.scan.rest ≠ []) (noCloser : r.scan.atCloser = false) :
    r.Takes r.open_ := by
  obtain ⟨c, rest, ahead⟩ := List.exists_cons_of_ne_nil more
  unfold open_
  split
  · rename_i begins
    exact .comment (rest_of_startsWith begins)
  split
  · rename_i tag
    unfold atTag at tag
    split at tag
    · rename_i d others here
      exact .element here tag
    · cases tag
  split
  · rename_i begins
    exact .block (rest_of_startsWith begins)
  split
  · rename_i begins
    exact .tag (rest_of_startsWith begins)
  split
  · rename_i noBlock noTag begins
    have brace := rest_of_startsWith begins
    refine .mustache brace fun d first => ?_
    obtain ⟨others, same⟩ := List.head?_eq_some_iff.1 first
    have here : r.scan.rest = '{' :: d :: others := brace.trans (congrArg (List.cons '{') same)
    refine ⟨?_, ?_, ?_, ?_⟩
    · rintro rfl
      exact noBlock (by rw [startsWith, here]; rfl)
    · rintro rfl
      exact noTag (by rw [startsWith, here]; rfl)
    · rintro rfl
      rw [atCloser, here] at noCloser
      cases noCloser
    · rintro rfl
      rw [atCloser, here] at noCloser
      cases noCloser
  · rename_i noComment noElement noBlock noTag noBrace
    refine .text ahead (Bool.eq_false_iff.2 fun stops => ?_)
    simp only [Bool.or_eq_true, Bool.and_eq_true, beq_iff_eq] at stops
    rcases stops with rfl | ⟨rfl, opens⟩
    · exact noBrace (by rw [startsWith, ahead]; rfl)
    · rcases Bool.or_eq_true_iff.1 opens with named | mark
      · cases rest with
        | nil => cases named
        | cons d others =>
          rcases Bool.or_eq_true_iff.1 named with letter | slash
          · exact noElement (by rw [atTag, ahead]; exact letter)
          · cases eq_of_beq slash
            rw [atCloser, ahead] at noCloser
            cases noCloser
      · obtain ⟨others, rfl⟩ := List.isPrefixOf_iff_prefix.1 mark
        exact noComment (by rw [startsWith, ahead]; rfl)

theorem takes_of_step (stepped : r.step = some next) : r.Takes next := by
  unfold step at stepped
  split at stepped
  · rename_i closer
    split at stepped
    · rename_i frame outer top
      cases stepped
      exact .closer top closer
    · rename_i top
      split at stepped
      · cases stepped
      · rename_i more
        cases stepped
        have atCloser : r.scan.atCloser = true := by simpa [more] using closer
        exact .stray top (by simpa [atEnd] using more) atCloser
  · rename_i opens
    cases stepped
    simp only [Bool.or_eq_true, not_or] at opens
    exact takes_open (by simpa [atEnd] using opens.1) (Bool.eq_false_iff.2 opens.2)

theorem step_of_takes (takes : r.Takes next) : r.step = some next := by
  cases takes with
  | comment ahead =>
    rw [step_open ahead (by rw [atCloser, ahead]; rfl)]
    unfold open_
    rw [if_pos (by rw [startsWith, ahead]; rfl)]
  | @element c rest ahead letter =>
    have noCloser : r.scan.atCloser = false := by
      rw [atCloser, ahead]
      split
      · rename_i same
        cases same
        exact absurd letter (by decide)
      · rename_i same
        cases same
      · rename_i same
        cases same
      · rfl
    have noComment : ¬r.scan.startsWith "<!--" = true := by
      intro begins
      cases ahead.symm.trans (rest_of_startsWith begins)
      exact absurd letter (by decide)
    rw [step_open ahead noCloser]
    unfold open_
    rw [if_neg noComment, if_pos (by rw [atTag, ahead]; exact letter)]
  | block ahead => exact step_block ahead
  | tag ahead =>
    rw [step_open ahead (by rw [atCloser, ahead]; rfl)]
    unfold open_
    simp [startsWith, atTag, ahead]
  | @mustache rest ahead other =>
    have noCloser : r.scan.atCloser = false := by
      rw [atCloser, ahead]
      split
      · rename_i same
        cases same
      · rename_i same
        cases same
        exact absurd rfl (other '/' rfl).2.2.1
      · rename_i same
        cases same
        exact absurd rfl (other ':' rfl).2.2.2
      · rfl
    rw [step_open ahead noCloser]
    unfold open_
    cases rest with
    | nil => simp [startsWith, atTag, ahead]
    | cons c rest =>
      obtain ⟨block, tag, _, _⟩ := other c rfl
      simp [startsWith, atTag, ahead, block.symm, tag.symm]
  | @text c rest ahead goesOn =>
    simp only [Bool.or_eq_false_iff, Bool.and_eq_false_iff, beq_eq_false_iff_ne] at goesOn
    obtain ⟨noBrace, noTag⟩ := goesOn
    -- no second character makes a tag of what is ahead
    have second {d : Char} {others : List Char} (here : r.scan.rest = '<' :: d :: others) :
        (d.isAlpha || d == '/') = false ∧ ¬"!--".toList.isPrefixOf (d :: others) = true := by
      cases ahead.symm.trans here
      have opens := noTag.resolve_left (not_not_intro rfl)
      obtain ⟨named, mark⟩ := Bool.or_eq_false_iff.1 opens
      exact ⟨named, Bool.eq_false_iff.1 mark⟩
    have noCloser : r.scan.atCloser = false := by
      unfold atCloser
      split
      · rename_i here
        cases (second here).1
      · rename_i here
        cases ahead.symm.trans here
        exact absurd rfl noBrace
      · rename_i here
        cases ahead.symm.trans here
        exact absurd rfl noBrace
      · rfl
    have noElement : r.scan.atTag = false := by
      unfold atTag
      split
      · rename_i here
        exact (Bool.or_eq_false_iff.1 (second here).1).1
      · rfl
    have noComment : ¬r.scan.startsWith "<!--" = true := fun begins =>
      (second (rest_of_startsWith begins)).2 rfl
    have plain {literal : String} {rest : List Char} (brace : literal.toList = '{' :: rest) :
        ¬r.scan.startsWith literal = true := by
      intro begins
      have here := rest_of_startsWith begins
      rw [brace] at here
      cases ahead.symm.trans here
      exact absurd rfl noBrace
    rw [step_open ahead noCloser]
    unfold open_
    rw [if_neg noComment, noElement, if_neg (by decide), if_neg (plain rfl), if_neg (plain rfl),
      if_neg (plain rfl)]
  | closer top closer =>
    unfold step
    rw [if_pos closer, top]
  | stray top more closer =>
    have filled : r.scan.atEnd = false := by simpa [atEnd] using more
    unfold step
    rw [closer, Bool.or_true, if_pos rfl, top, filled]
    rfl

theorem step_iff : r.step = some next ↔ r.Takes next := ⟨takes_of_step, step_of_takes⟩

/-- An opening tag that has been read, and the place behind it. -/
structure OpeningTag where
  name : String
  attributes : List Attribute
  closed : Bool
  scan : Scan

/-- The content behind the tag is not markup. -/
def OpeningTag.isRaw (tag : OpeningTag) : Bool :=
  !tag.closed && (tag.name == "script" || tag.name == "style")

theorem OpeningTag.known {tag : OpeningTag} (isRaw : tag.isRaw = true) :
    tag.name = "script" ∨ tag.name = "style" := by
  simp only [OpeningTag.isRaw, Bool.and_eq_true, Bool.or_eq_true, beq_iff_eq] at isRaw
  exact isRaw.2

def openingTag (r : Reading) : OpeningTag :=
  let named := r.scan.skip 1
  let n := named.count fun c => !(isBlank c || c == '/' || c == '>')
  let name := String.ofList (named.rest.take n)
  let attributes := (named.skip n).attributes
  let ended := tagEnd attributes.2 name r.scan.pos
  ⟨name, attributes.1, ended.1, ended.2⟩

/-- What an opening tag opens. -/
theorem readElement_eq (r : Reading) : r.readElement =
    if r.openingTag.isRaw then
      (r.moveTo r.openingTag.scan).readRaw r.scan.pos r.openingTag.name r.openingTag.attributes
    else if r.openingTag.closed || isVoid r.openingTag.name then
      r.add r.openingTag.scan (.element ⟨⟨r.scan.pos, r.openingTag.scan.pos⟩, r.openingTag.name,
        ElementKind.ofName r.openingTag.name, r.openingTag.attributes, r.openingTag.closed⟩ [])
    else
      r.enter r.openingTag.scan
        (.element r.scan.pos r.openingTag.name r.openingTag.attributes) := rfl

end Reading

end TypedSvelte.Markup
