import TypedSvelte.Proofs.Markup.NestedDocuments
import TypedSvelte.Script.Token

/-!
# Component elements

Capitalised and dotted names stand for components, of which any may have children. A `Piece` is such
an element or an identifier in braces, and a `Content` has texts between its pieces. While no name in
it is void, a reading passes a content and is then in a state that is known exactly, with the spans of
all nodes (`Reading.past`, `Content.passes`). The name of a void element is recognised in lower case,
though: an opening tag of such a name leaves an element without children, its closing tag is then
left to a construct of another name, and the source has an error (`Content.fails`).
-/
namespace TypedSvelte.Markup

open Scan Reading

def isScriptName : List Char → Bool
  | [] => false
  | c :: cs => Script.isNameStart c && cs.all Script.isNamePart

/-- The name of a component, of ASCII letters, digits and dots after a letter. -/
def isComponentName : List Char → Bool
  | [] => false
  | c :: cs => c.isAlpha && cs.all (fun d => d.isAlphanum || d == '.') &&
    ElementKind.ofName (String.ofList (c :: cs)) == .component

/-- A text, possibly empty, in which nothing can open. -/
def isUnmarked (cs : List Char) : Bool := cs.all fun c => c != '<' && c != '{'

abbrev ScriptName := { cs : List Char // isScriptName cs = true }

abbrev ComponentName := { cs : List Char // isComponentName cs = true }

abbrev Unmarked := { cs : List Char // isUnmarked cs = true }

mutual

/-- An identifier in braces or an element that stands for a component. -/
inductive Piece where
  | mustache (e : ScriptName)
  | element (name : ComponentName) (content : Content)

/-- Pieces with texts before, between and behind them. -/
inductive Content where
  | last (text : Unmarked)
  | cons (text : Unmarked) (piece : Piece) (rest : Content)

end

def ComponentName.text (name : ComponentName) : String := String.ofList name.val

/-- The opening tag of an element without attributes. -/
def ComponentName.openTag (name : ComponentName) : List Char := '<' :: (name.val ++ ['>'])

def ComponentName.closeTag (name : ComponentName) : List Char := "</".toList ++ name.val ++ ['>']

mutual

def Piece.render : Piece → List Char
  | .mustache e => '{' :: (e.val ++ ['}'])
  | .element name content => name.openTag ++ content.render ++ name.closeTag

def Content.render : Content → List Char
  | .last text => text.val
  | .cons text piece rest => text.val ++ piece.render ++ rest.render

end

/-- The node of a text at byte `offset`, unless the text is empty. -/
def Unmarked.nodes (text : Unmarked) (offset : Nat) : List Node :=
  if text.val.isEmpty then []
  else [.text ⟨⟨offset, offset + byteSize text.val⟩, String.ofList text.val⟩]

mutual

/-- The node of a piece at byte `offset`. -/
def Piece.node : Piece → Nat → Node
  | .mustache e, offset =>
    .mustache ⟨offset, offset + byteSize ('{' :: (e.val ++ ['}']))⟩
      ⟨⟨offset + 1, offset + 1 + byteSize e.val⟩, String.ofList e.val⟩
  | .element name content, offset =>
    .element ⟨⟨offset, offset + byteSize (name.openTag ++ content.render ++ name.closeTag)⟩,
      name.text, .component, [], false⟩ (content.nodes (offset + byteSize name.openTag))

/-- The nodes of a content at byte `offset`. -/
def Content.nodes : Content → Nat → List Node
  | .last text, offset => text.nodes offset
  | .cons text piece rest, offset =>
    text.nodes offset ++ [piece.node (offset + byteSize text.val)] ++
      rest.nodes (offset + byteSize (text.val ++ piece.render))

end

mutual

def Piece.names : Piece → List ComponentName
  | .mustache _ => []
  | .element name content => name :: content.names

def Content.names : Content → List ComponentName
  | .last _ => []
  | .cons _ piece rest => piece.names ++ rest.names

end

variable {c : Char}

theorem isNamePart_cases (part : Script.isNamePart c = true) :
    isIdentChar c = true ∨
      128 ≤ c.toNat ∧ (inRanges idStartRanges c.toNat || inRanges idContinueRanges c.toNat) = true := by
  simp only [Script.isNamePart, isIdContinue, isIdentChar, Bool.or_eq_true, Bool.and_eq_true,
    decide_eq_true_eq] at part ⊢
  rcases part with ((ascii | mark) | other) | mark
  · exact .inl (.inl (.inl ascii))
  · exact .inl (.inl (.inr mark))
  · exact .inr other
  · exact .inl (.inr mark)

/-- Outside of ASCII no piece is a token. -/
theorem lexeme_other {rest : List Char} (other : 128 ≤ c.toNat) : lexeme c rest = (none, 0) := by
  have differs (mark : Char) (ascii : mark.toNat < 128) : c ≠ mark := by
    rintro rfl
    omega
  have noIdent : isIdentChar c = false := by
    rw [Bool.eq_false_iff]
    intro ident
    have := range_of_isIdentChar ident
    omega
  have noStart : isIdentStart c = false := by
    rw [Bool.eq_false_iff]
    intro start
    rw [isIdentChar_of_isIdentStart start] at noIdent
    cases noIdent
  have noDigit : c.isDigit = false := by
    simp only [isIdentChar, Char.isAlphanum, Bool.or_eq_false_iff] at noIdent
    exact noIdent.1.1.2
  have noPunct : isPunct c = false := by
    rw [Bool.eq_false_iff]
    intro punct
    have ascii : ("-=<>!+*/%&|^~?:;.@#".toList.all fun mark => mark.toNat < 128) = true := by decide
    have := of_decide_eq_true (List.all_eq_true.1 ascii c (List.contains_iff_mem.1 punct))
    omega
  unfold lexeme
  simp [isSpace, noStart, noDigit, noPunct, differs]

private theorem stopsAtBrace_name (part : Script.isNamePart c = true) : StopsAtBrace c := by
  rcases isNamePart_cases part with ascii | ⟨other, _⟩
  · exact stopsAtBrace_header (by simp [isHeaderChar, ascii])
  · exact fun cs rest => ⟨none, 0, lexeme_other other, Nat.zero_le _, (Option.some_ne_none _).symm,
      (Option.some_ne_none _).symm⟩

def wideBlanks : List Nat :=
  [0x85, 0xA0, 0x1680, 0x2000, 0x2001, 0x2002, 0x2003, 0x2004, 0x2005, 0x2006, 0x2007, 0x2008,
    0x2009, 0x200A, 0x2028, 0x2029, 0x202F, 0x205F, 0x3000]

private theorem isBlank_name (part : Script.isNamePart c = true) : isBlank c = false := by
  rcases isNamePart_cases part with ascii | ⟨other, listed⟩
  · exact isBlank_of_isIdentChar ascii
  · have apart : ∀ n ∈ wideBlanks,
        (inRanges idStartRanges n || inRanges idContinueRanges n) = false := by decide +kernel
    rw [Bool.eq_false_iff]
    intro blank
    have wide : c.toNat ∈ wideBlanks := by
      simp only [isBlank, Bool.or_eq_true, Bool.and_eq_true, decide_eq_true_eq, beq_iff_eq] at blank
      simp only [wideBlanks, List.mem_cons, List.not_mem_nil, or_false]
      omega
    rw [apart _ wide] at listed
    cases listed

theorem scriptName_cases (e : ScriptName) : ∃ c cs, e.val = c :: cs ∧
    ∀ d ∈ e.val, Script.isNamePart d = true := by
  obtain ⟨chars, valid⟩ := e
  cases chars with
  | nil => cases valid
  | cons c cs =>
    simp only [isScriptName, Bool.and_eq_true, List.all_eq_true] at valid
    have first : Script.isNamePart c = true := by
      simp only [Script.isNameStart, Script.isNamePart, Bool.or_eq_true] at valid ⊢
      rcases valid.1 with (start | mark) | mark
      · exact .inl (isIdContinue_of_isIdStart start)
      · exact .inr mark
      · rw [beq_iff_eq.1 mark]
        decide
    exact ⟨c, cs, rfl, List.forall_mem_cons.2 ⟨first, valid.2⟩⟩

/-- An identifier has no white space around it. -/
theorem ofText_name (e : ScriptName) (offset : Nat) :
    Expression.ofText offset e.val =
      ⟨⟨offset, offset + byteSize e.val⟩, String.ofList e.val⟩ := by
  obtain ⟨c, cs, filled, parts⟩ := scriptName_cases e
  have solid (d : Char) (member : d ∈ e.val) : isBlank d = false := isBlank_name (parts d member)
  have trimmed : Trimmed e.val :=
    ⟨fun d first => solid d (List.mem_of_mem_head? first),
      fun d last => solid d (List.mem_of_getLast? last)⟩
  have whole := @trim_around [] e.val [] trimmed (by simp [filled]) nofun nofun
  rw [List.nil_append, List.append_nil] at whole
  have lead : e.val.takeWhile isBlank = [] := by
    rw [filled]
    exact List.takeWhile_cons_of_neg (by simp [solid c (filled ▸ .head _)])
  unfold Expression.ofText
  rw [whole, lead]
  rfl

namespace ComponentName

variable {d : Char}

theorem valid (name : ComponentName) : ∃ c cs, name.val = c :: cs ∧ c.isAlpha = true ∧
    (∀ d ∈ cs, d.isAlphanum = true ∨ d = '.') ∧ ElementKind.ofName name.text = .component := by
  obtain ⟨chars, valid⟩ := name
  cases chars with
  | nil => cases valid
  | cons c cs =>
    simp only [isComponentName, Bool.and_eq_true, List.all_eq_true, Bool.or_eq_true,
      beq_iff_eq] at valid
    obtain ⟨⟨letter, others⟩, kind⟩ := valid
    exact ⟨c, cs, rfl, letter, others, kind⟩

theorem begins (name : ComponentName) : ∃ c cs, name.val = c :: cs ∧ c.isAlpha = true := by
  obtain ⟨c, cs, filled, letter, _⟩ := name.valid
  exact ⟨c, cs, filled, letter⟩

theorem kind (name : ComponentName) : ElementKind.ofName name.text = .component := by
  obtain ⟨_, _, _, _, _, kind⟩ := name.valid
  exact kind

/-- Nothing in the name ends it. -/
theorem char (name : ComponentName) (member : d ∈ name.val) :
    isBlank d = false ∧ d ≠ '/' ∧ d ≠ '>' := by
  obtain ⟨c, cs, filled, letter, others, _⟩ := name.valid
  have known : d.isAlphanum = true ∨ d = '.' := by
    rw [filled] at member
    rcases List.mem_cons.1 member with rfl | inRest
    · exact .inl (by simp [Char.isAlphanum, letter])
    · exact others d inRest
  rcases known with alphanumeric | rfl
  · have ident : isIdentChar d = true := by simp [isIdentChar, alphanumeric]
    exact ⟨isBlank_of_isIdentChar ident, (ne_of_class ident (by decide)).symm,
      (ne_of_class ident (by decide)).symm⟩
  · decide

/-- Scripts and styles are no components. -/
theorem not_raw (name : ComponentName) : (name.text == "script" || name.text == "style") = false := by
  have others : ∀ raw ∈ ["script", "style"], ElementKind.ofName raw ≠ .component := by
    decide +kernel
  have differs (raw : String) (listed : raw ∈ ["script", "style"]) : name.text ≠ raw := by
    intro same
    exact others raw listed (same ▸ name.kind)
  simp [differs]

/-- A closing tag ends behind its name. -/
theorem closeTag_append (name : ComponentName) (rest : List Char) :
    name.closeTag ++ rest = "</".toList ++ name.val ++ '>' :: rest := by
  rw [closeTag, List.append_assoc _ ['>']]
  rfl

private theorem closeTag_char (name : ComponentName) :
    ∀ d ∈ name.val, isBlank d = false ∧ d ≠ '>' :=
  fun _ member => ⟨(name.char member).1, (name.char member).2.2⟩

theorem atCloser {s : Scan} {rest : List Char} (name : ComponentName)
    (ahead : s.rest = name.closeTag ++ rest) : s.atCloser = true := by
  unfold Scan.atCloser
  rw [ahead]
  rfl

end ComponentName

namespace Reading

variable {source : String} {r : Reading} {text first second rest : List Char} {before after : List Node}

/-- The reading after a text whose nodes are known. -/
def past (r : Reading) (text : List Char) (nodes : List Node) : Reading :=
  { r with scan := r.scan.skip text.length, nodes := nodes.reverse ++ r.nodes }

theorem pos_skip (ahead : r.scan.rest = text ++ rest) :
    (r.scan.skip text.length).pos = r.scan.pos + byteSize text := by
  change r.scan.pos + byteSize (r.scan.rest.take text.length) = _
  rw [ahead, List.take_left]

private theorem rest_past (ahead : r.scan.rest = text ++ rest) (nodes : List Node) :
    (r.past text nodes).scan.rest = rest := by
  change r.scan.rest.drop text.length = rest
  rw [ahead, List.drop_left]

private theorem past_past (r : Reading) (first second : List Char) (before after : List Node) :
    (r.past first before).past second after = r.past (first ++ second) (before ++ after) := by
  unfold past
  dsimp only
  rw [skip_skip, List.length_append, List.reverse_append, List.append_assoc]

/-- Each reading that comes by the text passes it, with the nodes that it has at its place. -/
def Passes (text : List Char) (nodes : Nat → List Node) (rest : List Char) : Prop :=
  ∀ source n r, Reached source n r → r.scan.rest = text ++ rest →
    ∃ m, Reached source m (r.past text (nodes r.scan.pos))

theorem Passes.append {before after : Nat → List Node}
    (passesFirst : Passes first before (second ++ rest)) (passesSecond : Passes second after rest) :
    Passes (first ++ second)
      (fun offset => before offset ++ after (offset + byteSize first)) rest := by
  intro source n r reached ahead
  rw [List.append_assoc] at ahead
  obtain ⟨m, middle⟩ := passesFirst source n r reached ahead
  obtain ⟨l, last⟩ := passesSecond source m _ middle (rest_past ahead _)
  rw [past_past] at last
  change Reached source l (r.past _ (_ ++ after (r.scan.skip first.length).pos)) at last
  rw [pos_skip ahead] at last
  exact ⟨l, last⟩

private theorem passes_unmarked (text : Unmarked) (ends : EndsText rest) :
    Passes text.val text.nodes rest := by
  obtain ⟨chars, valid⟩ := text
  simp only [isUnmarked, List.all_eq_true, Bool.and_eq_true, bne_iff_ne] at valid
  intro source n r reached ahead
  cases chars with
  | nil => exact ⟨n, reached⟩
  | cons c cs =>
    obtain ⟨⟨notTag, notBrace⟩, others⟩ := List.forall_mem_cons.1 valid
    change r.scan.rest = (c :: cs) ++ rest at ahead
    have size : textLength r.scan.rest.tail + 1 = (c :: cs).length := by
      rw [ahead, List.cons_append, List.tail_cons, textLength_append others ends, List.length_cons]
    have stepped := step_text ahead notTag notBrace
    unfold readText rawText at stepped
    dsimp only at stepped
    rw [size, pos_skip ahead, ahead, List.take_left] at stepped
    exact ⟨n + 1, reached.step stepped⟩

private theorem passes_mustache (e : ScriptName) :
    Passes (Piece.mustache e).render (fun offset => [(Piece.mustache e).node offset]) rest := by
  intro source n r reached ahead
  obtain ⟨c, cs, filled, parts⟩ := scriptName_cases e
  have brace : r.scan.rest = '{' :: (e.val ++ '}' :: rest) := by
    rw [ahead, Piece.render, List.cons_append, List.append_assoc]
    rfl
  have inner : (r.scan.skip 1).rest = e.val ++ '}' :: rest := by
    rw [rest_skip, brace]
    rfl
  have found : closingBrace? (r.scan.skip 1).rest = some e.val.length := by
    rw [inner]
    exact closingBrace?_until fun d member => stopsAtBrace_name (parts d member)
  have noMark : ∀ mark ∈ ['/', ':', '#', '@'], mark ≠ c := by
    have others : (['/', ':', '#', '@'].all fun mark => !Script.isNamePart mark) = true := by
      decide +kernel
    intro mark member
    have other := List.all_eq_true.1 others mark member
    rw [Bool.not_eq_true'] at other
    exact ne_of_class (parts c (filled ▸ .head _)) other
  have stepped := step_mustache (brace.trans (by rw [filled]; rfl)) noMark
  have start : (r.scan.skip 1).pos = r.scan.pos + 1 := @pos_skip r ['{'] _ brace
  have stop := pos_skip ahead
  have size : 1 + (e.val.length + 1) = (Piece.mustache e).render.length := by
    simp [Piece.render]
    omega
  unfold readMustache at stepped
  dsimp only at stepped
  rw [expression_eq found inner, skip_skip, size, start, ofText_name, stop] at stepped
  dsimp only at stepped
  rw [if_neg (by simp [Expression.isEmpty, filled])] at stepped
  exact ⟨n + 1, reached.step stepped⟩

variable {name : ComponentName}

private theorem length_openTag (name : ComponentName) : name.openTag.length = name.val.length + 2 := by
  simp [ComponentName.openTag]

/-- The reading after an opening tag that opens an element. -/
def within (r : Reading) (name : ComponentName) : Reading :=
  r.enter (r.scan.skip name.openTag.length) (.element r.scan.pos name.text [])

/-- An opening tag leaves an element without children if its name is void, else it opens one. -/
theorem step_openTag (ahead : r.scan.rest = name.openTag ++ rest) :
    r.step = some (if isVoid name.text then
      r.add (r.scan.skip name.openTag.length)
        (.element ⟨⟨r.scan.pos, r.scan.pos + byteSize name.openTag⟩, name.text, .component, [],
          false⟩ [])
      else r.within name) := by
  obtain ⟨c, cs, begins, letter⟩ := name.begins
  have mark : r.scan.rest = '<' :: (name.val ++ '>' :: rest) := by
    rw [ahead, ComponentName.openTag, List.cons_append, List.append_assoc]
    rfl
  have named : (r.scan.skip 1).rest = name.val ++ '>' :: rest := by
    rw [rest_skip, mark]
    rfl
  have size : (r.scan.skip 1).count (fun c => !(isBlank c || c == '/' || c == '>')) =
      name.val.length := by
    rw [count, named, takeWhile_until]
    · intro d member
      simp [name.char member]
    · exact endsRun_cons rfl
  have behind : ((r.scan.skip 1).skip name.val.length).rest = '>' :: rest := by
    rw [rest_skip, named, List.drop_left]
  have whole : ((r.scan.skip 1).skip name.val.length).skip 1 =
      r.scan.skip name.openTag.length := by
    rw [skip_skip, skip_skip, length_openTag]
    congr 1
    omega
  have stepped := step_element (mark.trans (by rw [begins]; rfl)) letter
  unfold readElement at stepped
  dsimp only at stepped
  rw [size, named, List.take_left, attributes_eq_nil behind, tagEnd_open behind, whole,
    pos_skip ahead] at stepped
  change r.step = some (if (!false && (name.text == "script" || name.text == "style")) = true
    then _ else if (false || isVoid name.text) = true then r.add _ (.element ⟨_, name.text,
      ElementKind.ofName name.text, _, _⟩ _) else r.enter _ (.element _ name.text _)) at stepped
  rw [name.not_raw, Bool.and_false, if_neg Bool.false_ne_true, name.kind, Bool.false_or] at stepped
  exact stepped

/-- A closing tag is passed by the element of its name, which takes the nodes read since. -/
theorem step_closeTag (nodes : List Node)
    (ahead : r.scan.rest = name.openTag ++ text ++ (name.closeTag ++ rest)) :
    ((r.within name).past text nodes).step =
      some (r.past (name.openTag ++ text ++ name.closeTag) [.element
        ⟨⟨r.scan.pos, r.scan.pos + byteSize (name.openTag ++ text ++ name.closeTag)⟩, name.text,
          .component, [], false⟩ nodes]) := by
  have here : ((r.within name).past text nodes).scan =
      r.scan.skip (name.openTag ++ text).length := by
    rw [List.length_append]
    exact skip_skip _ _ _
  have closing : ((r.within name).past text nodes).scan.rest = name.closeTag ++ rest := by
    rw [here, rest_skip, ahead, List.drop_left]
  have passed : closeTag ((r.within name).past text nodes).scan name.text r.scan.pos =
      r.scan.skip (name.openTag ++ text ++ name.closeTag).length := by
    refine (closeTag_eq (closing.trans (name.closeTag_append rest)) name.closeTag_char).trans ?_
    rw [here, skip_skip, @List.length_append _ _ name.closeTag]
    congr 2
    exact (@List.length_append _ _ ['>']).symm
  have stop : (r.scan.skip (name.openTag ++ text ++ name.closeTag).length).pos =
      r.scan.pos + byteSize (name.openTag ++ text ++ name.closeTag) := by
    refine @pos_skip _ _ rest ?_
    rw [ahead, List.append_assoc _ name.closeTag]
  have children : ((r.within name).past text nodes).nodes.reverse = nodes := by
    change (nodes.reverse ++ []).reverse = nodes
    rw [List.append_nil, List.reverse_reverse]
  have stepped := step_leave (name.atCloser closing) rfl
  unfold leave close at stepped
  dsimp only at stepped
  rw [passed, name.kind, stop, children] at stepped
  exact stepped

private theorem passes_element {content : Content} (leftOpen : isVoid name.text = false)
    (inner : Passes content.render content.nodes (name.closeTag ++ rest)) :
    Passes (Piece.element name content).render
      (fun offset => [(Piece.element name content).node offset]) rest := by
  intro source n r reached ahead
  rw [Piece.render, List.append_assoc] at ahead
  have opened := step_openTag (ahead.trans (List.append_assoc _ _ _))
  rw [leftOpen, if_neg Bool.false_ne_true] at opened
  have behind : (r.within name).scan.rest = content.render ++ (name.closeTag ++ rest) := by
    change r.scan.rest.drop name.openTag.length = _
    rw [ahead, List.append_assoc, List.drop_left]
  have offset : (r.within name).scan.pos = r.scan.pos + byteSize name.openTag :=
    pos_skip (ahead.trans (List.append_assoc _ _ _))
  obtain ⟨m, filled⟩ := inner source (n + 1) _ (reached.step opened) behind
  rw [offset] at filled
  exact ⟨m + 1, filled.step (step_closeTag _ ahead)⟩

end Reading

def LeftOpen (names : List ComponentName) : Prop := ∀ name ∈ names, isVoid name.text = false

instance (names : List ComponentName) : Decidable (LeftOpen names) := List.decidableBAll _ _

private theorem leftOpen_append {first second : List ComponentName} :
    LeftOpen (first ++ second) ↔ LeftOpen first ∧ LeftOpen second := List.forall_mem_append

private theorem leftOpen_cons {name : ComponentName} {names : List ComponentName} :
    LeftOpen (name :: names) ↔ isVoid name.text = false ∧ LeftOpen names := List.forall_mem_cons

/-- A text ends before a piece. -/
theorem Piece.endsText (piece : Piece) (rest : List Char) : EndsText (piece.render ++ rest) := by
  cases piece with
  | mustache e => exact endsText_brace
  | element name content =>
    obtain ⟨c, cs, begins, letter⟩ := name.begins
    rw [Piece.render, ComponentName.openTag, begins]
    exact endsText_tag letter

private theorem endsText_closeTag (name : ComponentName) (rest : List Char) :
    EndsText (name.closeTag ++ rest) := rfl

mutual

theorem Piece.passes (piece : Piece) (leftOpen : LeftOpen piece.names) (rest : List Char) :
    Passes piece.render (fun offset => [piece.node offset]) rest := by
  cases piece with
  | mustache e => exact passes_mustache e
  | element name content =>
    obtain ⟨outer, inner⟩ := leftOpen_cons.1 leftOpen
    exact passes_element outer (content.passes inner (endsText_closeTag name rest))

/-- A content without void names is passed, and its nodes are those of its texts and pieces. -/
theorem Content.passes (content : Content) (leftOpen : LeftOpen content.names) {rest : List Char}
    (ends : EndsText rest) : Passes content.render content.nodes rest := by
  cases content with
  | last text => exact passes_unmarked text ends
  | cons text piece more =>
    obtain ⟨here, behind⟩ := leftOpen_append.1 leftOpen
    have first := passes_unmarked text (piece.endsText (more.render ++ rest))
    exact (first.append (piece.passes here _)).append (more.passes behind ends)

end

namespace Reading

/-- The innermost open construct is an element whose name is not void, if there is any. -/
def TakesElements (r : Reading) : Prop :=
  ∀ frame ∈ r.stack.head?, ∃ start name attributes,
    frame.construct = .element start name attributes ∧ isVoid name = false

variable {source : String} {r : Reading} {rest : List Char} {name : ComponentName} {n : Nat}

/-- The closing tag of a void name belongs to no open element. -/
theorem errors_ne_of_closeTag (reached : Reached source n r) (takes : r.TakesElements)
    (void : isVoid name.text = true) (ahead : r.scan.rest = name.closeTag ++ rest) :
    (parse source).errors ≠ [] := by
  have found := takeWhile_closeTag (ahead.trans (name.closeTag_append rest)) name.closeTag_char
  refine errors_ne_of_alien reached (name.atCloser ahead) fun frame member owns => ?_
  obtain ⟨start, other, attributes, construct, leftOpen⟩ := takes frame member
  rw [construct] at owns
  have same : name.text = other := by
    rw [ComponentName.text, ← found, owns.2, String.ofList_toList]
  rw [same, leftOpen] at void
  cases void

end Reading

mutual

theorem Piece.fails (piece : Piece) (void : ¬LeftOpen piece.names) {source : String} {n : Nat}
    {r : Reading} {rest : List Char} (reached : Reached source n r) (takes : r.TakesElements)
    (ahead : r.scan.rest = piece.render ++ rest) : (parse source).errors ≠ [] := by
  cases piece with
  | mustache e => exact absurd nofun void
  | element name content =>
    rw [Piece.render, List.append_assoc, List.append_assoc] at ahead
    have opened := step_openTag ahead
    have behind : r.scan.rest.drop name.openTag.length =
        content.render ++ (name.closeTag ++ rest) := by rw [ahead, List.drop_left]
    cases outer : isVoid name.text with
    | true =>
      -- the element is left without children, and what should be its content stands behind it
      rw [outer, if_pos rfl] at opened
      by_cases leftOpen : LeftOpen content.names
      · obtain ⟨m, passed⟩ := content.passes leftOpen (endsText_closeTag name rest) source (n + 1) _
          (reached.step opened) behind
        exact errors_ne_of_closeTag passed takes outer (rest_past behind _)
      · exact content.fails leftOpen (reached.step opened) takes behind
    | false =>
      rw [outer, if_neg Bool.false_ne_true] at opened
      have entered : (r.within name).TakesElements := by
        rintro frame ⟨⟩
        exact ⟨_, _, _, rfl, outer⟩
      exact content.fails (fun inner => void (leftOpen_cons.2 ⟨outer, inner⟩))
        (reached.step opened) entered behind

theorem Content.fails (content : Content) (void : ¬LeftOpen content.names) {source : String}
    {n : Nat} {r : Reading} {rest : List Char} (reached : Reached source n r)
    (takes : r.TakesElements) (ahead : r.scan.rest = content.render ++ rest) :
    (parse source).errors ≠ [] := by
  cases content with
  | last text => exact absurd nofun void
  | cons text piece more =>
    rw [Content.render, List.append_assoc, List.append_assoc] at ahead
    obtain ⟨m, before⟩ := passes_unmarked text (piece.endsText _) source n r reached ahead
    have here := rest_past ahead (text.nodes r.scan.pos)
    by_cases first : LeftOpen piece.names
    · obtain ⟨l, behind⟩ := piece.passes first _ source m _ before here
      exact more.fails (fun others => void (leftOpen_append.2 ⟨first, others⟩)) behind takes
        (rest_past here _)
    · exact piece.fails first before takes here

end

private theorem parse_piece (piece : Piece) (leftOpen : LeftOpen piece.names) :
    parse (String.ofList piece.render) =
      ⟨⟨⟨0, byteSize piece.render⟩, none, none, [], [piece.node 0]⟩, []⟩ := by
  obtain ⟨m, passed⟩ := piece.passes leftOpen [] _ 0 _ .start (rest_start _)
  unfold parse
  dsimp only
  rw [passed.finish_eq, finish_of_read (rest_past (rest_start _) _) rfl, utf8ByteSize_ofList]
  rfl

/-- The source of an element that stands for a component is read without errors if and only if no
name in it, in lower case, is that of a void element. It is then read as this element, and the
children are the nodes of its content. -/
theorem component_read_iff (name : ComponentName) (content : Content) :
    let element := Piece.element name content
    ((parse (String.ofList element.render)).errors = [] ↔ LeftOpen element.names) ∧
      (LeftOpen element.names →
        (parse (String.ofList element.render)).document =
          ⟨⟨0, byteSize element.render⟩, none, none, [],
            [.element ⟨⟨0, byteSize element.render⟩, name.text, .component, [], false⟩
              (content.nodes (byteSize name.openTag))]⟩) := by
  intro element
  refine ⟨⟨fun accepted => ?_, fun leftOpen => ?_⟩, fun leftOpen => ?_⟩
  · by_contra void
    exact element.fails void .start nofun (rest_start _) accepted
  · rw [parse_piece element leftOpen]
  · rw [parse_piece element leftOpen]
    simp only [element, Piece.node, Piece.render, Nat.zero_add]

/-- Behind a dot, the name of a void element does no harm. -/
theorem component_read_dotted :
    let element : Piece := .element ⟨"A.Link".toList, by decide +kernel⟩ (.last ⟨['x'], rfl⟩)
    LeftOpen element.names ∧ (parse (String.ofList element.render)).errors = [] := by
  have leftOpen : LeftOpen [⟨"A.Link".toList, by decide +kernel⟩] := by decide +kernel
  exact ⟨leftOpen, (component_read_iff _ _).1.2 leftOpen⟩

/-- `Link` is the name of a component, and in lower case that of a void element: it takes no
children, the text stands beside it, and its closing tag is an error. -/
theorem link_without_children :
    ElementKind.ofName "Link" = .component ∧
      (parse "<Link>x</Link>").document.fragment.map Node.span = [⟨0, 6⟩, ⟨6, 7⟩] ∧
      (parse "<Link>x</Link>").errors = [⟨.unexpectedClosingTag "Link", ⟨7, 14⟩⟩] := by
  decide +kernel

end TypedSvelte.Markup
