import TypedSvelte.Proofs.Markup.Collections
import TypedSvelte.Proofs.Markup.NestedDocuments
import TypedSvelte.Proofs.Markup.SwappedSteps

/-!
# Fillers

Texts, comments and styles are what a component holds beside code. This module collects them for
documents and for constructs that are still open, and shows where each of them comes from: one step
of the pass has read it (`Reading.Writes`), and nothing that is done later changes it
(`exists_writes`).
-/
namespace TypedSvelte.Markup

open Scan

/-- A text or a comment of the template, or a style. -/
inductive Filler where
  | text (t : RawText)
  | comment (c : RawText)
  | style (s : Style)
  deriving DecidableEq

namespace Filler

/-- The bytes of the text, in a comment between its two marks. -/
def content : Filler → Span
  | .text t => t.span
  | .comment c => ⟨c.span.start + 4, c.span.stop - 3⟩
  | .style s => s.contentSpan

/-- What can stand in the place of the text: nothing that ends it or begins something else. -/
def Admits : Filler → String → Prop
  | .text _, new => new ≠ "" ∧ ∀ c ∈ new.toList, c ≠ '<' ∧ c ≠ '{'
  | .comment _, new => ¬"-->".toList <:+: new.toList
  | .style _, new => ¬"</style".toList <:+: new.toList

end Filler

mutual

def Node.fillers : Node → List Filler
  | .element _ children => fillersOf children
  | .text t => [.text t]
  | .comment c => [.comment c]
  | .mustache _ _ | .tag _ _ _ => []
  | .ifBlock _ _ consequent alternate => fillersOf consequent ++ alternate.fillers
  | .each _ body fallback => fillersOf body ++ fillersOfBranch fallback
  | .await _ pending onThen onCatch =>
    fillersOf pending ++ fillersOfBranch onThen ++ fillersOfBranch onCatch
  | .key _ _ body => fillersOf body

def fillersOf : List Node → List Filler
  | [] => []
  | node :: rest => node.fillers ++ fillersOf rest

/-- The texts and comments of a branch, if it is there. -/
def fillersOfBranch : Option (List Node) → List Filler
  | none => []
  | some nodes => fillersOf nodes

/-- The texts and comments of what follows the consequent of a condition. -/
def Alternate.fillers : Alternate → List Filler
  | .absent => []
  | .otherwise nodes => fillersOf nodes
  | .elseIf _ _ consequent alternate => fillersOf consequent ++ alternate.fillers

end

/-- The texts and comments of the template and the styles. -/
def Document.fillers (d : Document) : List Filler := fillersOf d.fragment ++ d.styles.map .style

private theorem fillersOf_eq_flatMap (nodes : List Node) : fillersOf nodes = nodes.flatMap Node.fillers := by
  induction nodes with
  | nil => rfl
  | cons node rest ih => rw [fillersOf, ih, List.flatMap_cons]

theorem mem_fillersOf_reverse {nodes : List Node} {filler : Filler} :
    filler ∈ fillersOf nodes.reverse ↔ filler ∈ fillersOf nodes := by
  simp only [fillersOf_eq_flatMap, List.mem_flatMap, List.mem_reverse]

/-- The texts and comments of nodes as a collection. -/
def fillerCollection : Collection Filler where
  ofNode := Node.fillers
  ofAlternate := Alternate.fillers
  ofAttribute _ := []
  ofCast _ := []
  element head children := by simp [Node.fillers, fillersOf_eq_flatMap]
  mustache _ _ := rfl
  tag _ _ _ := (List.flatMap_eq_nil_iff.2 fun _ _ => rfl).symm
  ifBlock _ _ consequent alternate := by rw [Node.fillers, fillersOf_eq_flatMap, List.nil_append]
  each _ body fallback := by
    cases fallback <;> simp [Node.fillers, fillersOf_eq_flatMap, fillersOfBranch]
  await _ pending onThen onCatch := by
    cases onThen <;> cases onCatch <;> simp [Node.fillers, fillersOf_eq_flatMap, fillersOfBranch]
  key _ _ body := fillersOf_eq_flatMap body
  absent := rfl
  otherwise nodes := fillersOf_eq_flatMap nodes
  elseIf _ _ consequent alternate := by
    rw [Alternate.fillers, fillersOf_eq_flatMap, List.nil_append]

private theorem ofNodes_fillers : fillerCollection.ofNodes = fillersOf :=
  (funext fillersOf_eq_flatMap).symm

/-- The texts and comments in the branches of a construct. -/
def Construct.fillers (construct : Construct) : List Filler := construct.branches.flatMap fillersOf

private theorem Construct.ofConstruct_fillers (construct : Construct) :
    fillerCollection.ofConstruct construct = construct.fillers := by
  have attributes : construct.attributes.flatMap fillerCollection.ofAttribute = [] :=
    List.flatMap_eq_nil_iff.2 fun _ _ => rfl
  have casts : construct.casts.flatMap fillerCollection.ofCast = [] :=
    List.flatMap_eq_nil_iff.2 fun _ _ => rfl
  rw [Collection.ofConstruct, attributes, casts, List.nil_append, List.nil_append,
    Construct.fillers, ofNodes_fillers]

namespace Reading

def fillers (r : Reading) : List Filler :=
  r.stack.flatMap (fun frame => frame.construct.fillers ++ fillersOf frame.before)
    ++ fillersOf r.nodes ++ r.styles.map .style

private theorem fillers_eq (r : Reading) :
    r.fillers = fillerCollection.ofReading r ++ r.styles.map .style := by
  have construct : fillerCollection.ofConstruct = Construct.fillers :=
    funext Construct.ofConstruct_fillers
  rw [fillers, Collection.ofReading, construct, ofNodes_fillers]

variable {source : String} {r next : Reading} {scan : Scan} {filler : Filler}

/-- The step from one reading to the next reads a filler. -/
inductive Writes (r : Reading) : Reading → Filler → Prop
  | text {c : Char} {rest : List Char} (ahead : r.scan.rest = c :: rest)
      (goesOn : (c == '{' || (c == '<' && opensTag rest)) = false) :
      Writes r r.readText (.text (r.scan.rawText (textLength rest + 1)))
  | comment {rest : List Char} {n : Nat} (ahead : r.scan.rest = '<' :: '!' :: '-' :: '-' :: rest)
      (found : findText? "-->".toList rest = some n) :
      Writes r r.readComment (.comment
        ⟨⟨r.scan.pos, ((r.scan.skip 4).skip (n + 3)).pos⟩, String.ofList (rest.take n)⟩)
  /-- The content of a script or style that stands in another construct. -/
  | content {c : Char} {rest : List Char} {n : Nat} (ahead : r.scan.rest = '<' :: c :: rest)
      (letter : c.isAlpha = true) (raw : r.openingTag.isRaw = true) (inside : r.stack ≠ [])
      (found : findText? ("</" ++ r.openingTag.name).toList r.openingTag.scan.rest = some n) :
      Writes r r.readElement (.text (r.openingTag.scan.rawText n))
  | style {c : Char} {rest : List Char} {n : Nat} (ahead : r.scan.rest = '<' :: c :: rest)
      (letter : c.isAlpha = true) (raw : r.openingTag.isRaw = true) (top : r.stack = [])
      (named : r.openingTag.name = "style")
      (found : findText? ("</" ++ r.openingTag.name).toList r.openingTag.scan.rest = some n) :
      Writes r r.readElement (.style
        ⟨⟨r.scan.pos, ((r.openingTag.scan.skip n).skipPast '>').pos⟩,
          ⟨r.openingTag.scan.pos, (r.openingTag.scan.skip n).pos⟩⟩)

/-- Where no style is read, a filler is new only if it is collected. -/
theorem mem_fillers_of_styles {P : Prop} (styles : next.styles = r.styles)
    (collected : filler ∈ fillerCollection.ofReading next →
      filler ∈ fillerCollection.ofReading r ∨ P) (member : filler ∈ next.fillers) :
    filler ∈ r.fillers ∨ P := by
  rw [fillers_eq, List.mem_append, styles] at member
  rw [fillers_eq, List.mem_append]
  rcases member with inReading | inStyles
  · exact (collected inReading).imp_left .inl
  · exact .inl (.inr inStyles)

private theorem mem_fillers_add {node : Node} (member : filler ∈ (r.add scan node).fillers) :
    filler ∈ r.fillers ∨ filler ∈ node.fillers := by
  have styles : (r.add scan node).styles = r.styles := rfl
  exact mem_fillers_of_styles styles Collection.mem_add member

/-- Where no style is read and nothing is collected but expressions, no filler is new. -/
theorem mem_fillers_of_collected (styles : next.styles = r.styles)
    (collected : filler ∈ fillerCollection.ofReading next →
      filler ∈ fillerCollection.ofReading r ∨
        ∃ cast, r.Tells cast ∧ filler ∈ fillerCollection.ofCast cast)
    (member : filler ∈ next.fillers) : filler ∈ r.fillers := by
  refine (mem_fillers_of_styles styles collected member).resolve_right ?_
  rintro ⟨cast, _, nothing⟩
  cases nothing

private theorem styles_leave (frame : Frame) (outer : List Frame) :
    (r.leave frame outer).styles = r.styles := by
  unfold leave
  split <;> rfl

private theorem styles_readBlock : r.readBlock.styles = r.styles := by
  unfold readBlock
  dsimp only
  split
  · rfl
  · split <;> rfl

private theorem styles_readTag : r.readTag.styles = r.styles := by
  unfold readTag
  dsimp only
  split <;> rfl

private theorem styles_readMustache : r.readMustache.styles = r.styles := by
  unfold readMustache
  dsimp only
  split
  · rfl
  · split <;> rfl

private theorem styles_strayCloser : r.strayCloser.styles = r.styles := by
  unfold strayCloser
  dsimp only
  split
  · rfl
  · split <;> rfl

private theorem fillers_addScript (r : Reading) (script : Script) :
    (r.addScript script).fillers = r.fillers := by
  unfold addScript
  split
  · split <;> rfl
  · split <;> rfl

private theorem accepted_of_addScript {script : Script}
    (accepted : (r.addScript script).scan.errors = []) : r.scan.errors = [] :=
  List.suffix_nil.1 (accepted ▸ errors_addScript r script)

/-- A script or style that is not closed is an error. -/
theorem found_of_accepted {start : Nat} {name : String} {attributes : List Attribute}
    (accepted : (r.readRaw start name attributes).scan.errors = []) :
    ∃ n, findText? ("</" ++ name).toList r.scan.rest = some n := by
  cases found : findText? ("</" ++ name).toList r.scan.rest with
  | some n => exact ⟨n, rfl⟩
  | none =>
    exfalso
    unfold readRaw at accepted
    dsimp only at accepted
    rw [found] at accepted
    dsimp only at accepted
    split at accepted
    · cases accepted
    · split at accepted
      · cases accepted
      · cases accepted_of_addScript accepted

private theorem fillers_readElement {c : Char} {rest : List Char} (ahead : r.scan.rest = '<' :: c :: rest)
    (letter : c.isAlpha = true) (accepted : r.readElement.scan.errors = [])
    (member : filler ∈ r.readElement.fillers) :
    filler ∈ r.fillers ∨ r.Writes r.readElement filler := by
  have whole := r.readElement_eq
  by_cases raw : r.openingTag.isRaw = true
  · rw [if_pos raw] at whole
    obtain ⟨n, found⟩ := found_of_accepted (whole ▸ accepted)
    rw [whole] at member
    unfold readRaw at member
    dsimp only at member
    have opened : (r.moveTo r.openingTag.scan).scan = r.openingTag.scan := rfl
    rw [opened] at found
    rw [opened, found] at member
    dsimp only [Option.getD_some] at member
    split at member
    · rename_i inside
      refine (mem_fillers_add member).imp_right fun here => ?_
      cases List.mem_singleton.1 here
      exact .content ahead letter raw (by simpa [moveTo] using inside) found
    · rename_i top
      replace top : r.stack = [] := by simpa [moveTo] using top
      split at member
      · rename_i named
        simp only [fillers, List.map_cons, List.mem_append, List.mem_cons] at member
        rcases member with inNodes | here | inStyles
        · exact .inl (List.mem_append.2 (.inl (List.mem_append.2 inNodes)))
        · subst here
          exact .inr (.style ahead letter raw top (eq_of_beq named) found)
        · exact .inl (List.mem_append_right _ inStyles)
      · rw [fillers_addScript] at member
        exact .inl member
  · rw [if_neg raw] at whole
    rw [whole] at member
    split at member
    · rcases mem_fillers_add member with old | nothing
      · exact .inl old
      · cases nothing
    · have styles : (r.enter r.openingTag.scan (.element r.scan.pos r.openingTag.name
          r.openingTag.attributes)).styles = r.styles := rfl
      refine .inl (mem_fillers_of_collected styles (fun inNext => .inl ?_) member)
      refine (Collection.mem_enter inNext).resolve_right fun own => ?_
      rw [Construct.ofConstruct_fillers] at own
      cases own

/-- A comment that is closed. -/
theorem readComment_of_found {rest : List Char} {n : Nat}
    (ahead : r.scan.rest = '<' :: '!' :: '-' :: '-' :: rest)
    (found : findText? "-->".toList rest = some n) :
    r.readComment = r.add ((r.scan.skip 4).skip (n + 3)) (.comment
      ⟨⟨r.scan.pos, ((r.scan.skip 4).skip (n + 3)).pos⟩, String.ofList (rest.take n)⟩) := by
  have body : (r.scan.skip 4).rest = rest := by
    rw [rest_skip, ahead]
    rfl
  unfold readComment
  dsimp only
  rw [body, found]

private theorem fillers_readComment {rest : List Char}
    (ahead : r.scan.rest = '<' :: '!' :: '-' :: '-' :: rest)
    (accepted : r.readComment.scan.errors = []) (member : filler ∈ r.readComment.fillers) :
    filler ∈ r.fillers ∨ r.Writes r.readComment filler := by
  cases found : findText? "-->".toList rest with
  | none =>
    have body : (r.scan.skip 4).rest = rest := by
      rw [rest_skip, ahead]
      rfl
    unfold readComment at accepted
    dsimp only at accepted
    rw [body, found] at accepted
    cases accepted
  | some n =>
    rw [readComment_of_found ahead found] at member
    refine (mem_fillers_add member).imp_right fun here => ?_
    cases List.mem_singleton.1 here
    exact .comment ahead found

/-- A filler that stands in the next reading stood there before, or the step reads it. -/
theorem fillers_step (placed : r.Placed source) (takes : r.Takes next)
    (accepted : next.scan.errors = []) (member : filler ∈ next.fillers) :
    filler ∈ r.fillers ∨ r.Writes next filler := by
  cases takes with
  | comment ahead => exact fillers_readComment ahead accepted member
  | element ahead letter => exact fillers_readElement ahead letter accepted member
  | block ahead =>
    have begins : r.scan.startsWith "\x7b#" = true := by
      rw [startsWith, ahead]
      rfl
    exact .inl (mem_fillers_of_collected styles_readBlock (Collection.mem_readBlock begins) member)
  | tag ahead => exact .inl (mem_fillers_of_collected styles_readTag Collection.mem_readTag member)
  | mustache ahead other =>
    exact .inl (mem_fillers_of_collected styles_readMustache Collection.mem_readMustache member)
  | @text c rest ahead goesOn =>
    refine (mem_fillers_add member).imp_right fun here => ?_
    cases List.mem_singleton.1 here
    rw [ahead]
    exact .text ahead goesOn
  | closer top closer =>
    exact .inl (mem_fillers_of_collected (styles_leave _ _) (Collection.mem_leave placed top)
      member)
  | stray top more closer =>
    exact .inl (mem_fillers_of_collected styles_strayCloser
      (fun inNext => .inl (Collection.mem_strayCloser inNext)) member)

/-- A filler that stands in a reading without errors was read by a step on the way to it. -/
theorem exists_writes {n : Nat} (reached : Reached source n r) (accepted : r.scan.errors = [])
    (member : filler ∈ r.fillers) : ∃ m before after, Reached source m before ∧
      before.step = some after ∧ before.Writes after filler := by
  induction reached with
  | start => cases member
  | @step n before after reached stepped ih =>
    have kept := (reached.placed.leads_step stepped).kept
    rw [accepted] at kept
    rcases fillers_step reached.placed (takes_of_step stepped) accepted member with old | new
    · exact ih (List.suffix_nil.1 kept) old
    · exact ⟨n, before, after, reached, stepped, new⟩

end Reading

end TypedSvelte.Markup
