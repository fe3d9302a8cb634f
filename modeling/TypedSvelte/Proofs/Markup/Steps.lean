import TypedSvelte.Proofs.Markup.Constructs

/-!
# What a step of the pass does

`Reading.step_cases` says once what a step can do: it deals with the innermost open construct, or it
passes characters and then adds a node, opens a construct, sets a script or a style aside, or has noted
an error. What holds of every document follows from this lemma and from what is known of
constructs; no reader is taken apart again.
-/
namespace TypedSvelte.Markup

namespace Scan

variable {source : String} {s : Scan}

theorem Reaches.pos_of_nil (here : (ofSource source).Reaches s) (ended : s.rest = []) :
    s.pos = source.utf8ByteSize := by
  obtain ⟨passed, rest, pos⟩ := here
  change source.toList = passed ++ s.rest at rest
  rw [ended, List.append_nil] at rest
  rw [pos, ← rest, byteSize_toList]
  exact Nat.zero_add _

theorem rest_of_startsWith {literal : String} (begins : s.startsWith literal = true) :
    s.rest = literal.toList ++ s.rest.drop literal.toList.length := by
  obtain ⟨rest, whole⟩ := List.isPrefixOf_iff_prefix.1 begins
  rw [← whole, List.drop_left]

end Scan

namespace Reading

open Scan

variable {source : String} {r next : Reading}

def scripts (r : Reading) : List Script := r.moduleScript.toList ++ r.instanceScript.toList

/-- What reading on does where nothing is closed. -/
inductive Opens (source : String) (r : Reading) : Reading → Prop
  | node {scan : Scan} {node : Node} (leads : r.scan.Leads source scan)
      (span : node.span = ⟨r.scan.pos, scan.pos⟩)
      (placed : node.Placed source ⟨r.scan.pos, scan.pos⟩) (joined : node.Joined) :
      Opens source r (r.add scan node)
  | construct {scan : Scan} {construct : Construct} (leads : r.scan.Leads source scan)
      (starts : construct.start = r.scan.pos) (placed : construct.Placed source scan.pos)
      (strung : ∀ nodes ∈ construct.branches, Strung nodes) :
      Opens source r (r.enter scan construct)
  /-- A script is set aside, and those set aside before are kept. -/
  | script {scan : Scan} {script : Script} {forModule perInstance : Option Script}
      (top : r.stack = []) (leads : r.scan.Leads source scan)
      (span : script.span = ⟨r.scan.pos, scan.pos⟩)
      (placed : script.Placed source ⟨r.scan.pos, scan.pos⟩) (tiled : script.Tiled)
      (grown : (forModule.toList ++ perInstance.toList).Perm (script :: r.scripts)) :
      Opens source r
        { r.moveTo scan with moduleScript := forModule, instanceScript := perInstance }
  | style {scan : Scan} {style : Style} (top : r.stack = []) (leads : r.scan.Leads source scan)
      (span : style.span = ⟨r.scan.pos, scan.pos⟩)
      (placed : style.Placed source ⟨r.scan.pos, scan.pos⟩) :
      Opens source r { r.moveTo scan with styles := style :: r.styles }
  /-- Characters are passed for nothing, which is an error. -/
  | error {scan : Scan} (leads : r.scan.Leads source scan) (noted : scan.errors ≠ []) :
      Opens source r (r.moveTo scan)

theorem Opens.leads (opens : r.Opens source next) : r.scan.Leads source next.scan := by
  cases opens with
  | node leads _ _ _ | construct leads _ _ _ | script _ leads _ _ _ _ | style _ leads _ _
  | error leads _ => exact leads

private theorem opens_readText (here : (ofSource source).Reaches r.scan) :
    r.Opens source r.readText :=
  .node (r.scan.leads_skip _) rfl (.text (placed_rawText here _)) .text

private theorem opens_readComment (here : (ofSource source).Reaches r.scan)
    (begins : r.scan.startsWith "<!--" = true) : r.Opens source r.readComment := by
  have ahead := rest_of_startsWith begins
  have toBody : r.scan.Leads source (r.scan.skip 4) := r.scan.leads_skip 4
  have lead : byteSize (r.scan.rest.take 4) = byteSize "<!--".toList := by
    rw [ahead]
    rfl
  unfold readComment
  dsimp only
  cases found : findText? "-->".toList (r.scan.skip 4).rest with
  | some n =>
    have leads : r.scan.Leads source ((r.scan.skip 4).skip (n + 3)) := toBody.trans (leads_skip _ _)
    refine .node leads rfl (.comment ⟨Or.inl ?_, Span.Inside.refl _⟩) .comment
    -- the mark stands behind the text, so both are passed together
    obtain ⟨after, closing⟩ := findText?_spec found
    have passed : (r.scan.skip 4).rest.take (n + 3) =
        (r.scan.skip 4).rest.take n ++ "-->".toList := by
      rw [List.take_add, ← closing]
      rfl
    have whole : r.scan.rest = "<!--".toList ++ (r.scan.skip 4).rest.take (n + 3) ++
        ((r.scan.skip 4).skip (n + 3)).rest := by
      rw [List.append_assoc, rest_skip (r.scan.skip 4), List.take_append_drop]
      exact ahead
    have pos : ((r.scan.skip 4).skip (n + 3)).pos =
        r.scan.pos + byteSize ("<!--".toList ++ (r.scan.skip 4).rest.take (n + 3)) := by
      rw [byteSize_append, ← lead, ← Nat.add_assoc]
      rfl
    have slice := here.slice? whole pos
    rw [passed, ← List.append_assoc, String.ofList_append, String.ofList_append,
      String.ofList_toList, String.ofList_toList] at slice
    exact slice
  | none =>
    have ended := (r.scan.skip 4).reaches_skipAll
    have leads : r.scan.Leads source ((r.scan.skip 4).skipAll.fail (.unexpectedEof "-->") r.scan.pos) :=
      (toBody.trans (leads_skip _ _)).trans
        (leads_fail (here.since (toBody.reached.trans ended)) _)
    have nothing : (r.scan.skip 4).skipAll.rest = [] := List.drop_length
    refine .node leads rfl (.comment ⟨Or.inr ⟨?_, ?_⟩, Span.Inside.refl _⟩) .comment
    · have whole : r.scan.rest = "<!--".toList ++ (r.scan.skip 4).rest ++
          (r.scan.skip 4).skipAll.rest := by
        rw [nothing, List.append_nil]
        exact ahead
      have pos : (r.scan.skip 4).skipAll.pos =
          r.scan.pos + byteSize ("<!--".toList ++ (r.scan.skip 4).rest) := by
        rw [byteSize_append, ← lead, ← Nat.add_assoc]
        change _ + byteSize ((r.scan.skip 4).rest.take (r.scan.skip 4).rest.length) = _
        rw [List.take_length]
        rfl
      have slice := here.slice? whole pos
      rw [String.ofList_append, String.ofList_toList] at slice
      exact slice
    · exact (here.trans (toBody.reached.trans ended)).pos_of_nil nothing

private theorem opens_readMustache (here : (ofSource source).Reaches r.scan) :
    r.Opens source r.readMustache := by
  have toBody : r.scan.Leads source (r.scan.skip 1) := r.scan.leads_skip 1
  have opened := here.since toBody.reached
  have read := toBody.trans (leads_expression opened)
  unfold readMustache
  dsimp only
  split
  · rename_i absent
    exact .error read (errors_expression_ne absent)
  · rename_i e found
    split
    · exact .error (read.trans (leads_fail (here.since read.reached) _)) (errors_fail_ne _ _ _)
    · have placed := (placed_expression opened.here found).mono
        (inside_of_reaches toBody.reached (Nat.le_refl _))
      exact .node read rfl (.mustache ⟨here.fits read.reached, .refl _⟩ placed) .mustache

private theorem opens_readTag (here : (ofSource source).Reaches r.scan) : r.Opens source r.readTag := by
  have toBody : r.scan.Leads source (r.scan.skip 2).word.2 :=
    (r.scan.leads_skip 2).trans (leads_word _)
  have opened := here.since toBody.reached
  have read := toBody.trans (leads_expression opened)
  unfold readTag
  dsimp only
  split
  · rename_i absent
    exact .error read (errors_expression_ne absent)
  · exact .error (read.trans (leads_fail (here.since read.reached) _)) (errors_fail_ne _ _ _)
  · rename_i e kind found _
    have placed := (placed_expression opened.here found).mono
      (inside_of_reaches toBody.reached (Nat.le_refl _))
    refine .node read rfl (.tag ⟨here.fits read.reached, .refl _⟩ fun part kept => ?_) .tag
    split at kept
    · cases kept
    · cases Option.some.inj kept
      exact placed

private theorem opens_blockConstruct? {header : Expression} {construct : Construct} {start stop : Nat}
    {word : String} (began : Span.Fits source ⟨start, stop⟩)
    (placed : header.Placed source ⟨start, stop⟩)
    (opens : blockConstruct? start word header = some construct) :
    construct.start = start ∧ construct.Placed source stop ∧
      ∀ nodes ∈ construct.branches, Strung nodes := by
  unfold blockConstruct? at opens
  split at opens
  · cases opens
    exact ⟨rfl, .arm (.cons ⟨began, placed, nofun⟩ .nil), nofun⟩
  · cases opens
    exact ⟨rfl, .eachBody began fun e part => placed.of_hasPart (part_eachHeader part), nofun⟩
  · dsimp only at opens
    have subject := placed.of_hasPart (part_awaitHeader (.head _))
    split at opens
    · rename_i branch binding split
      cases opens
      refine ⟨rfl, .awaitBranch ⟨began, subject, nofun, nofun, nofun, nofun, nofun⟩ ?_, ?_⟩
      · intro e bound
        refine placed.of_hasPart (part_awaitHeader (.tail _ ?_))
        rw [split]
        exact Option.mem_toList.2 bound
      · intro nodes member
        cases List.mem_singleton.1 member
        exact strung_nil
    · cases opens
      exact ⟨rfl, .awaitPending began subject, nofun⟩
  · cases opens
    exact ⟨rfl, .key began placed, nofun⟩
  · cases opens

private theorem opens_readBlock (here : (ofSource source).Reaches r.scan) :
    r.Opens source r.readBlock := by
  have toHeader : r.scan.Leads source (r.scan.skip 2).word.2 :=
    (r.scan.leads_skip 2).trans (leads_word _)
  have opened := here.since toHeader.reached
  have read := toHeader.trans (leads_expression opened)
  unfold readBlock
  dsimp only
  split
  · rename_i absent
    exact .error read (errors_expression_ne absent)
  · rename_i header found
    split
    · rename_i construct opens
      have placed := (placed_expression opened.here found).mono
        (inside_of_reaches toHeader.reached (Nat.le_refl _))
      obtain ⟨starts, parts, strung⟩ :=
        opens_blockConstruct? (here.fits read.reached) placed opens
      exact .construct read starts parts strung
    · exact .error (read.trans (leads_fail (here.since read.reached) _)) (errors_fail_ne _ _ _)

private theorem opens_addScript {scan : Scan} {script : Script} (here : (ofSource source).Reaches r.scan)
    (top : r.stack = []) (leads : r.scan.Leads source scan)
    (span : script.span = ⟨r.scan.pos, scan.pos⟩)
    (placed : script.Placed source ⟨r.scan.pos, scan.pos⟩) (tiled : script.Tiled) :
    r.Opens source ((r.moveTo scan).addScript script) := by
  have duplicate (kind : ErrorKind) :
      r.Opens source (r.moveTo (scan.fail kind script.span.start)) := by
    have since : Since source script.span.start scan := span ▸ here.since leads.reached
    exact .error (leads.trans (leads_fail since _)) (errors_fail_ne _ _ _)
  unfold addScript
  split
  · split
    · exact duplicate _
    · rename_i free
      have absent : r.moduleScript = none := by simpa [moveTo] using free
      refine .script top leads span placed tiled ?_
      rw [scripts, absent]
      exact .refl _
  · split
    · exact duplicate _
    · rename_i free
      have absent : r.instanceScript = none := by simpa [moveTo] using free
      refine .script top leads span placed tiled ?_
      rw [scripts, absent]
      exact List.perm_middle

section

-- The content of a script or style lies between `opened` and `closing`, and its closing tag, if there
-- is one, between `closing` and `last`.
variable {opened closing last : Scan} {name : String} {attributes : List Attribute}
  (here : (ofSource source).Reaches r.scan) (toContent : r.scan.Leads source opened)
  (toClosing : opened.Leads source closing) (toLast : closing.Leads source last)
  (placed : ∀ a ∈ attributes, a.Placed source ⟨r.scan.pos, opened.pos⟩)

include here toContent toClosing toLast

private theorem lies_raw : Span.Lies source ⟨r.scan.pos, last.pos⟩ ⟨r.scan.pos, last.pos⟩ ∧
    Span.Lies source ⟨opened.pos, closing.pos⟩ ⟨r.scan.pos, last.pos⟩ :=
  ⟨⟨here.fits ((toContent.trans toClosing).trans toLast).reached, .refl _⟩,
    (here.trans toContent.reached).fits toClosing.reached, toContent.reached.pos_le,
    toLast.reached.pos_le⟩

include placed

private theorem opens_rawElement {text : String}
    (content : slice? source opened.pos closing.pos = some text) :
    r.Opens source (r.add last (.element ⟨⟨r.scan.pos, last.pos⟩, name, .html, attributes, false⟩
      [.text ⟨⟨opened.pos, closing.pos⟩, text⟩])) := by
  obtain ⟨outer, inner⟩ := lies_raw here toContent toClosing toLast
  have behind := (toClosing.trans toLast).reached.pos_le
  refine .node ((toContent.trans toClosing).trans toLast) rfl
    (.element outer (fun a member => (placed a member).mono ⟨Nat.le_refl _, behind⟩) ?_) ?_
  · intro node member
    cases List.mem_singleton.1 member
    exact .text ⟨content, inner.inside⟩
  · refine .element ⟨opened.pos, closing.pos, rfl, toClosing.reached.pos_le, rfl⟩ ?_
    intro node member
    cases List.mem_singleton.1 member
    exact .text

private theorem opens_rawScript (top : r.stack = []) :
    r.Opens source ((r.moveTo last).addScript
      { span := ⟨r.scan.pos, last.pos⟩, openTag := ⟨r.scan.pos, opened.pos⟩
        closeTag := ⟨closing.pos, last.pos⟩, contentSpan := ⟨opened.pos, closing.pos⟩
        lang := ScriptLang.ofAttributes attributes
        context := ScriptContext.ofAttributes attributes, attributes }) := by
  obtain ⟨outer, inner⟩ := lies_raw here toContent toClosing toLast
  have closer := (toContent.trans toClosing).reached
  have opening : Span.Lies source ⟨r.scan.pos, opened.pos⟩ ⟨r.scan.pos, last.pos⟩ :=
    ⟨here.fits toContent.reached, Nat.le_refl _, (toClosing.trans toLast).reached.pos_le⟩
  have ending : Span.Lies source ⟨closing.pos, last.pos⟩ ⟨r.scan.pos, last.pos⟩ :=
    ⟨(here.trans closer).fits toLast.reached, closer.pos_le, Nat.le_refl _⟩
  have whole := (toContent.trans toClosing).trans toLast
  exact opens_addScript here top whole rfl ⟨outer, opening, inner, ending, placed⟩
    ⟨rfl, toContent.reached.pos_le, rfl, toClosing.reached.pos_le, rfl, toLast.reached.pos_le, rfl⟩

end

private theorem opens_readRaw {opened : Scan} {name : String} {attributes : List Attribute}
    (here : (ofSource source).Reaches r.scan) (toContent : r.scan.Leads source opened)
    (placed : ∀ a ∈ attributes, a.Placed source ⟨r.scan.pos, opened.pos⟩) :
    r.Opens source ((r.moveTo opened).readRaw r.scan.pos name attributes) := by
  have opening := here.trans toContent.reached
  have text (n : Nat) := (placed_rawText opening n).slice
  have either {closing last : Scan} (toClosing : opened.Leads source closing)
      (toLast : closing.Leads source last) (top : r.stack = []) : r.Opens source
        { r.moveTo last with
          styles := ⟨⟨r.scan.pos, last.pos⟩, ⟨opened.pos, closing.pos⟩⟩ :: r.styles } := by
    obtain ⟨outer, inner⟩ := lies_raw here toContent toClosing toLast
    exact .style top ((toContent.trans toClosing).trans toLast) rfl ⟨outer, inner⟩
  unfold readRaw
  dsimp only
  cases findText? ("</" ++ name).toList (r.moveTo opened).scan.rest with
  | some n =>
    have toClosing : opened.Leads source (opened.skip n) := opened.leads_skip n
    have toLast : (opened.skip n).Leads source ((opened.skip n).skipPast '>') := leads_skipPast _ _
    split
    · exact opens_rawElement here toContent toClosing toLast placed (text n)
    · rename_i filled
      have top : r.stack = [] := by simpa [moveTo] using filled
      split
      · exact either toClosing toLast top
      · exact opens_rawScript here toContent toClosing toLast placed top
  | none =>
    have toClosing : opened.Leads source opened.skipAll := opened.leads_skip _
    have toLast : opened.skipAll.Leads source
        (opened.skipAll.fail (.unclosedTag name) r.scan.pos) :=
      leads_fail (here.since (toContent.trans toClosing).reached) _
    split
    · exact opens_rawElement here toContent toClosing toLast placed (text _)
    · rename_i filled
      have top : r.stack = [] := by simpa [moveTo] using filled
      split
      · exact either toClosing toLast top
      · exact opens_rawScript here toContent toClosing toLast placed top

theorem leads_tagEnd {s : Scan} {start : Nat} (since : Since source start s) (name : String) :
    s.Leads source (tagEnd s name start).2 := by
  unfold tagEnd
  split
  · exact s.leads_skip 2
  · split
    · exact s.leads_skip 1
    · exact leads_fail since _

private theorem opens_readElement (here : (ofSource source).Reaches r.scan) :
    r.Opens source r.readElement := by
  have toName (n : Nat) : r.scan.Leads source ((r.scan.skip 1).skip n) :=
    (r.scan.leads_skip 1).trans (leads_skip _ n)
  have toAttributes (n : Nat) : r.scan.Leads source ((r.scan.skip 1).skip n).attributes.2 :=
    (toName n).trans (leads_attributes (here.trans (toName n).reached))
  have leads (n : Nat) (name : String) : r.scan.Leads source
      (tagEnd ((r.scan.skip 1).skip n).attributes.2 name r.scan.pos).2 :=
    (toAttributes n).trans (leads_tagEnd (here.since (toAttributes n).reached) name)
  have placed (n : Nat) (name : String) (a : Attribute)
      (member : a ∈ ((r.scan.skip 1).skip n).attributes.1) : a.Placed source ⟨r.scan.pos,
        (tagEnd ((r.scan.skip 1).skip n).attributes.2 name r.scan.pos).2.pos⟩ :=
    (placed_attributes (here.trans (toName n).reached) member).mono
      (inside_of_reaches (toName n).reached (reaches_tagEnd _ name _).pos_le)
  unfold readElement
  dsimp only
  split
  · exact opens_readRaw here (leads _ _) (placed _ _)
  · have fits := here.fits (leads
      ((r.scan.skip 1).count fun c => !(isBlank c || c == '/' || c == '>')) (String.ofList
        ((r.scan.skip 1).rest.take
          ((r.scan.skip 1).count fun c => !(isBlank c || c == '/' || c == '>'))))).reached
    split
    · exact .node (leads _ _) rfl (.element ⟨fits, .refl _⟩ (placed _ _) nofun)
        (.element strung_nil.1 nofun)
    · exact .construct (leads _ _) rfl (.element fits (placed _ _)) nofun

private theorem opens_open (here : (ofSource source).Reaches r.scan) : r.Opens source r.open_ := by
  unfold open_
  split
  · rename_i begins
    exact opens_readComment here begins
  split
  · exact opens_readElement here
  split
  · exact opens_readBlock here
  split
  · exact opens_readTag here
  split
  · exact opens_readMustache here
  · exact opens_readText here

private theorem opens_strayCloser (here : (ofSource source).Reaches r.scan) :
    r.Opens source r.strayCloser := by
  have word : r.scan.Leads source (r.scan.skip 2).word.2 :=
    (r.scan.leads_skip 2).trans (leads_word _)
  have passed (c : Char) (kind : ErrorKind) :
      r.Opens source (r.moveTo (((r.scan.skip 2).word.2.skipPast c).fail kind r.scan.pos)) := by
    have leads := word.trans (leads_skipPast _ c)
    exact .error (leads.trans (leads_fail (here.since leads.reached) _)) (errors_fail_ne _ _ _)
  unfold strayCloser
  dsimp only
  split
  · exact passed _ _
  · split
    · exact passed _ _
    · exact passed _ _

/-- A step deals with the innermost open construct, or it passes characters. -/
theorem step_cases (here : (ofSource source).Reaches r.scan) (stepped : r.step = some next) :
    (∃ frame outer, r.stack = frame :: outer ∧ next = r.leave frame outer) ∨
      r.Opens source next ∧ r.scan.pos < next.scan.pos := by
  have forwards (opens : r.Opens source next) (advanced : r.Advanced next) :
      r.Opens source next ∧ r.scan.pos < next.scan.pos :=
    ⟨opens, opens.leads.reached.pos_lt advanced.1⟩
  unfold step at stepped
  split at stepped
  · split at stepped
    · rename_i frame outer top
      cases stepped
      exact Or.inl ⟨frame, outer, top, rfl⟩
    · split at stepped
      · cases stepped
      · rename_i more
        cases stepped
        have ahead : r.scan.rest ≠ [] := by simpa [atEnd] using more
        exact Or.inr (forwards (opens_strayCloser here) (advanced_strayCloser ahead))
  · rename_i more
    cases stepped
    simp only [Bool.or_eq_true, not_or] at more
    have ahead : r.scan.rest ≠ [] := by simpa [atEnd] using more.1
    exact Or.inr (forwards (opens_open here) (advanced_open ahead))

end Reading

end TypedSvelte.Markup
