import TypedSvelte.Proofs.Markup.Marks
import TypedSvelte.Proofs.Markup.Passage
import TypedSvelte.Proofs.Position.Spans

/-!
# Documents in their source

`Document.Placed` says that a document is a reading of its source: every expression, text and comment
is the slice of the source that its span covers, expressions have no white space around them, and
every part lies within the part around it. A part of a header is cut out of a text that was cut out of
the source, so it is placed because slices of slices are slices (`Expression.Placed.of_hasPart`).
-/
namespace TypedSvelte

/-- A slice of a slice is a slice. -/
theorem slice?_slice? {source text part : String} {start stop first last : Nat}
    (outer : slice? source start stop = some text) (inner : slice? text first last = some part) :
    slice? source (start + first) (start + last) = some part := by
  obtain ⟨before, after, rfl, rfl, _⟩ := (slice?_eq_some_iff _ _ _ _).1 outer
  obtain ⟨lead, trail, rfl, rfl, rfl⟩ := (slice?_eq_some_iff _ _ _ _).1 inner
  refine (slice?_eq_some_iff _ _ _ _).2 ⟨before ++ lead, trail ++ after, ?_, ?_, ?_⟩
  · simp only [String.append_assoc]
  · rw [String.utf8ByteSize_append]
  · rw [Nat.add_assoc]

/-- The span begins and ends on character boundaries of the source, in order. -/
structure Span.Fits (source : String) (s : Span) : Prop where
  ordered : s.start ≤ s.stop
  start : IsCut source s.start
  stop : IsCut source s.stop

/-- The span fits the source and lies within another one. -/
structure Span.Lies (source : String) (s parent : Span) : Prop where
  fits : s.Fits source
  inside : s.Inside parent

theorem Span.Fits.of_slice? {source text : String} {s : Span}
    (slice : slice? source s.start s.stop = some text) : s.Fits source := by
  obtain ⟨first, last⟩ := cuts_of_slice? slice
  refine ⟨?_, first, last⟩
  rw [stop_of_slice? slice]
  exact Nat.le_add_right _ _

theorem Span.Fits.extend {source : String} {start stop later : Nat}
    (fits : Span.Fits source ⟨start, stop⟩) (further : stop ≤ later) (cut : IsCut source later) :
    Span.Fits source ⟨start, later⟩ :=
  ⟨Nat.le_trans fits.ordered further, fits.start, cut⟩

theorem Span.Inside.refl (s : Span) : s.Inside s := ⟨Nat.le_refl _, Nat.le_refl _⟩

theorem Span.Inside.trans {a b c : Span} (first : a.Inside b) (second : b.Inside c) :
    a.Inside c :=
  ⟨Nat.le_trans second.1 first.1, Nat.le_trans first.2 second.2⟩

theorem Span.Lies.mono {source : String} {parent wider s : Span} (lies : s.Lies source parent)
    (wide : parent.Inside wider) : s.Lies source wider :=
  ⟨lies.fits, lies.inside.trans wide⟩

namespace Markup

/-- The expression is the slice of the source that its span covers, without white space around it. -/
structure Expression.Placed (source : String) (parent : Span) (e : Expression) : Prop where
  slice : TypedSvelte.slice? source e.span.start e.span.stop = some e.text
  trimmed : Trimmed e.chars
  inside : e.span.Inside parent

/-- The text is the slice of the source that its span covers. -/
structure RawText.Placed (source : String) (parent : Span) (t : RawText) : Prop where
  slice : TypedSvelte.slice? source t.span.start t.span.stop = some t.data
  inside : t.span.Inside parent

/-- The span of a comment covers its text between the two marks. Only the end of the source takes
the place of the closing mark. -/
structure RawText.PlacedComment (source : String) (parent : Span) (c : RawText) : Prop where
  slice : slice? source c.span.start c.span.stop = some ("<!--" ++ c.data ++ "-->") ∨
    slice? source c.span.start c.span.stop = some ("<!--" ++ c.data) ∧
      c.span.stop = source.utf8ByteSize
  inside : c.span.Inside parent

variable {source : String} {parent wider : Span}

namespace Expression

variable {e part : Expression}

theorem Placed.mono (placed : e.Placed source parent) (wide : parent.Inside wider) :
    e.Placed source wider :=
  ⟨placed.slice, placed.trimmed, placed.inside.trans wide⟩

theorem Placed.fits (placed : e.Placed source parent) : e.span.Fits source := .of_slice? placed.slice

/-- What a slice of the source writes. -/
theorem placed_ofText {start stop : Nat} {raw : List Char}
    (slice : TypedSvelte.slice? source start stop = some (String.ofList raw)) :
    (ofText start raw).Placed source ⟨start, stop⟩ := by
  obtain ⟨trail, parts⟩ := trim_parts raw
  have inner : TypedSvelte.slice? (String.ofList raw) (byteSize (raw.takeWhile isBlank))
      (byteSize (raw.takeWhile isBlank) + byteSize (trim raw)) =
        some (String.ofList (trim raw)) := by
    refine (slice?_eq_some_iff _ _ _ _).2
      ⟨String.ofList (raw.takeWhile isBlank), String.ofList trail, ?_, ?_, ?_⟩
    · rw [← String.ofList_append, ← String.ofList_append, ← parts]
    · rw [utf8ByteSize_ofList]
    · rw [utf8ByteSize_ofList]
  refine ⟨?_, ?_, Nat.le_add_right _ _, ?_⟩
  · have composed := slice?_slice? slice inner
    rw [← Nat.add_assoc] at composed
    exact composed
  · unfold chars
    change Trimmed (String.ofList (trim raw)).toList
    rw [String.toList_ofList]
    exact trimmed_trim raw
  · have fits := byteSize_trim_le raw
    have size := stop_of_slice? slice
    rw [utf8ByteSize_ofList] at size
    change start + byteSize (raw.takeWhile isBlank) + byteSize (trim raw) ≤ stop
    omega

/-- A part of an expression is placed where the expression is. -/
theorem Placed.of_hasPart (placed : e.Placed source parent) (isPart : e.HasPart part) :
    part.Placed source parent := by
  cases isPart with
  | whole => exact placed
  | @slice start stop part found =>
    unfold slice? at found
    dsimp only at found
    split at found
    · cases found
    · rename_i filled
      cases Option.some.inj found
      have covered : (Span.mk start stop).text e.text ≠ "" := by
        intro blank
        rw [blank] at filled
        exact filled rfl
      have inner := slice?_of_text_ne covered
      have whole := slice?_slice? placed.slice inner
      rw [← String.ofList_toList (s := (Span.mk start stop).text e.text)] at whole
      have bound : stop ≤ e.text.utf8ByteSize := (cuts_of_slice? inner).2.le
      have size := stop_of_slice? placed.slice
      have inEnd : e.span.start + stop ≤ e.span.stop := by omega
      have inside : Span.Inside ⟨e.span.start + start, e.span.start + stop⟩ e.span :=
        ⟨Nat.le_add_right _ _, inEnd⟩
      exact (placed_ofText whole).mono (inside.trans placed.inside)

end Expression

theorem RawText.Placed.mono {t : RawText} (placed : t.Placed source parent)
    (wide : parent.Inside wider) : t.Placed source wider :=
  ⟨placed.slice, placed.inside.trans wide⟩

theorem RawText.PlacedComment.mono {c : RawText} (placed : c.PlacedComment source parent)
    (wide : parent.Inside wider) : c.PlacedComment source wider :=
  ⟨placed.slice, placed.inside.trans wide⟩

theorem RawText.PlacedComment.fits {c : RawText} (placed : c.PlacedComment source parent) :
    c.span.Fits source := by
  rcases placed.slice with closed | ⟨ended, _⟩
  · exact .of_slice? closed
  · exact .of_slice? ended

def ValuePart.Placed (source : String) (parent : Span) : ValuePart → Prop
  | .text t => t.Placed source parent
  | .expression e => e.Placed source parent

/-- The attribute lies in its tag, and its value in the attribute. -/
inductive Attribute.Placed (source : String) (parent : Span) : Attribute → Prop
  | plain {a : PlainAttribute} (span : a.span.Lies source parent)
      (value : ∀ part ∈ a.value, part.Placed source a.span) : Placed source parent (.plain a)
  | shorthand {e : Expression} (expression : e.Placed source parent) :
      Placed source parent (.shorthand e)
  | spread {e : Expression} (expression : e.Placed source parent) :
      Placed source parent (.spread e)
  | directive {d : Directive} (span : d.span.Lies source parent)
      (value : ∀ e ∈ d.value, e.Placed source d.span) : Placed source parent (.directive d)

theorem ValuePart.Placed.mono {part : ValuePart} (placed : part.Placed source parent)
    (wide : parent.Inside wider) : part.Placed source wider := by
  cases part with
  | text t => exact RawText.Placed.mono placed wide
  | expression e => exact Expression.Placed.mono placed wide

theorem Attribute.Placed.mono {a : Attribute} (placed : a.Placed source parent)
    (wide : parent.Inside wider) : a.Placed source wider := by
  cases placed with
  | plain span value => exact .plain (span.mono wide) value
  | shorthand expression => exact .shorthand (expression.mono wide)
  | spread expression => exact .spread (expression.mono wide)
  | directive span value => exact .directive (span.mono wide) value

mutual

/-- The node lies in its parent, and all that it holds lies in the node. -/
inductive Node.Placed (source : String) : Span → Node → Prop
  | element {parent : Span} {head : ElementHead} {nodes : List Node}
      (span : head.span.Lies source parent)
      (attributes : ∀ a ∈ head.attributes, a.Placed source head.span)
      (children : ∀ node ∈ nodes, Node.Placed source head.span node) :
      Node.Placed source parent (.element head nodes)
  | text {parent : Span} {t : RawText} (here : t.Placed source parent) :
      Node.Placed source parent (.text t)
  | comment {parent : Span} {c : RawText} (here : c.PlacedComment source parent) :
      Node.Placed source parent (.comment c)
  | mustache {parent s : Span} {e : Expression} (span : s.Lies source parent)
      (expression : e.Placed source s) : Node.Placed source parent (.mustache s e)
  | tag {parent s : Span} {kind : TagKind} {e? : Option Expression} (span : s.Lies source parent)
      (expression : ∀ e ∈ e?, e.Placed source s) : Node.Placed source parent (.tag s kind e?)
  | ifBlock {parent s : Span} {e : Expression} {nodes : List Node} {rest : Alternate}
      (span : s.Lies source parent) (condition : e.Placed source s)
      (consequent : ∀ node ∈ nodes, Node.Placed source s node)
      (alternate : Alternate.Placed source s rest) :
      Node.Placed source parent (.ifBlock s e nodes rest)
  | each {parent : Span} {head : EachHead} {nodes : List Node} {others : Option (List Node)}
      (span : head.span.Lies source parent) (header : ∀ e ∈ head.parts, e.Placed source head.span)
      (body : ∀ node ∈ nodes, Node.Placed source head.span node)
      (fallback : ∀ branch ∈ others, ∀ node ∈ branch, Node.Placed source head.span node) :
      Node.Placed source parent (.each head nodes others)
  | await {parent : Span} {head : AwaitHead} {nodes : List Node}
      {thens catches : Option (List Node)} (span : head.span.Lies source parent)
      (header : ∀ e ∈ head.parts, e.Placed source head.span)
      (pending : ∀ node ∈ nodes, Node.Placed source head.span node)
      (onThen : ∀ branch ∈ thens, ∀ node ∈ branch, Node.Placed source head.span node)
      (onCatch : ∀ branch ∈ catches, ∀ node ∈ branch, Node.Placed source head.span node) :
      Node.Placed source parent (.await head nodes thens catches)
  | key {parent s : Span} {e : Expression} {nodes : List Node} (span : s.Lies source parent)
      (expression : e.Placed source s) (body : ∀ node ∈ nodes, Node.Placed source s node) :
      Node.Placed source parent (.key s e nodes)

/-- What follows the consequent of a condition lies in the condition. -/
inductive Alternate.Placed (source : String) : Span → Alternate → Prop
  | absent {parent : Span} : Alternate.Placed source parent .absent
  | otherwise {parent : Span} {nodes : List Node}
      (branch : ∀ node ∈ nodes, Node.Placed source parent node) :
      Alternate.Placed source parent (.otherwise nodes)
  | elseIf {parent s : Span} {e : Expression} {nodes : List Node} {rest : Alternate}
      (span : s.Lies source parent) (condition : e.Placed source s)
      (consequent : ∀ node ∈ nodes, Node.Placed source s node)
      (alternate : Alternate.Placed source s rest) :
      Alternate.Placed source parent (.elseIf s e nodes rest)

end

theorem Node.Placed.mono {node : Node} (placed : node.Placed source parent)
    (wide : parent.Inside wider) : node.Placed source wider := by
  cases placed with
  | element span attributes children => exact .element (span.mono wide) attributes children
  | text here => exact .text (here.mono wide)
  | comment here => exact .comment (here.mono wide)
  | mustache span expression => exact .mustache (span.mono wide) expression
  | tag span expression => exact .tag (span.mono wide) expression
  | ifBlock span condition consequent alternate =>
    exact .ifBlock (span.mono wide) condition consequent alternate
  | each span header body fallback => exact .each (span.mono wide) header body fallback
  | await span header pending onThen onCatch =>
    exact .await (span.mono wide) header pending onThen onCatch
  | key span expression body => exact .key (span.mono wide) expression body

theorem Alternate.Placed.mono {rest : Alternate} (placed : rest.Placed source parent)
    (wide : parent.Inside wider) : rest.Placed source wider := by
  cases placed with
  | absent => exact .absent
  | otherwise branch => exact .otherwise fun node member => (branch node member).mono wide
  | elseIf span condition consequent alternate =>
    exact .elseIf (span.mono wide) condition consequent alternate

/-- The script lies in its parent, its three parts lie in the script, and its attributes in the
opening tag. -/
structure Script.Placed (source : String) (parent : Span) (script : Script) : Prop where
  span : script.span.Lies source parent
  openTag : script.openTag.Lies source script.span
  content : script.contentSpan.Lies source script.span
  closeTag : script.closeTag.Lies source script.span
  attributes : ∀ a ∈ script.attributes, a.Placed source script.openTag

/-- The style lies in its parent, and its content in the style. -/
structure Style.Placed (source : String) (parent : Span) (style : Style) : Prop where
  span : style.span.Lies source parent
  content : style.contentSpan.Lies source style.span

theorem Script.Placed.mono {script : Script} (placed : script.Placed source parent)
    (wide : parent.Inside wider) : script.Placed source wider :=
  { placed with span := placed.span.mono wide }

theorem Style.Placed.mono {style : Style} (placed : style.Placed source parent)
    (wide : parent.Inside wider) : style.Placed source wider :=
  { placed with span := placed.span.mono wide }

def Document.scripts (d : Document) : List Script :=
  d.moduleScript.toList ++ d.instanceScript.toList

/-- The document spans the source, and all of its parts are placed in it. -/
structure Document.Placed (source : String) (d : Document) : Prop where
  span : d.span = ⟨0, source.utf8ByteSize⟩
  fragment : ∀ node ∈ d.fragment, node.Placed source d.span
  scripts : ∀ script ∈ d.scripts, script.Placed source d.span
  styles : ∀ style ∈ d.styles, style.Placed source d.span

end Markup

end TypedSvelte
