import TypedSvelte.Component.Template
import TypedSvelte.Proofs.Markup.Containment
import TypedSvelte.Proofs.Position.Layout

/-!
# How copies are closed

Behind each copy a template has a closing text such as `);` or `) {`. The pieces of a template are
framed: what is not a copy is sealed, so a copy is lexed as if it stood alone, and so is its closing
text unless the copy is open-ended. An open-ended copy takes its closing text in. So the closing
texts are lexed as tokens of their own exactly if no copy is open-ended (`closings_lexed_iff`).
-/
namespace TypedSvelte.Component

open Markup

/-- The text begins with a mild character, and one of its tokens begins before it can end a string,
a template literal or a comment. -/
def closes (text : List Char) : Bool :=
  text.head?.any isMild &&
    (tokens text).any fun t => decide (t.start < byteSize (text.takeWhile isPlain))

/-- The copies are closed by texts that close, and the other pieces are sealed, but for words with a
text behind them that closes. -/
inductive Framed : List Piece → Prop
  | nil : Framed []
  | frame {text : String} {rest : List Piece} (isSealed : isSealed text.toList = true)
      (framed : Framed rest) : Framed (.fresh text :: rest)
  | word {text closing : String} {rest : List Piece} (ended : openEnded text.toList = false)
      (isClosing : closes closing.toList = true) (framed : Framed (.fresh closing :: rest)) :
      Framed (.fresh text :: .fresh closing :: rest)
  | copied {span : Span} {closing : String} {rest : List Piece}
      (isClosing : closes closing.toList = true) (framed : Framed (.fresh closing :: rest)) :
      Framed (.copied span :: .fresh closing :: rest)

namespace Framed

variable {first second : List Piece} {text closing : String} {span : Span}

theorem append (framed : Framed first) (others : Framed second) : Framed (first ++ second) := by
  induction framed with
  | nil => exact others
  | frame isSealed _ ih => exact .frame isSealed ih
  | word ended isClosing _ ih => exact .word ended isClosing ih
  | copied isClosing _ ih => exact .copied isClosing ih

theorem flatMap {α : Type} {xs : List α} {f : α → List Piece} (framed : ∀ x ∈ xs, Framed (f x)) :
    Framed (xs.flatMap f) := by
  induction xs with
  | nil => exact .nil
  | cons x rest ih =>
    obtain ⟨here, others⟩ := List.forall_mem_cons.1 framed
    exact here.append (ih others)

/-- A text of its own that is sealed. -/
theorem fresh (isSealed : isSealed text.toList = true) : Framed [.fresh text] :=
  .frame isSealed .nil

end Framed

variable {source : String}

def closingTexts : List String :=
  [");\n", "\x7d);\n", " = __sveltets_any;\n", ";\n", ") \x7b\n", " of __sveltets_each(",
    ")) \x7b\n", " = 0;\n", " = __sveltets_awaited("]

/-- The texts of templates, but for the word `__sveltets_item`. -/
def templateTexts : List String :=
  ["(", "(\x7b...", "let ", "const ", "if (", "for (const ", "\x7b\n", "\x7d\n", "\x7d", "\n",
    " else \x7b\n", " else ", "(() => \x7b\n"] ++ closingTexts

-- Each list is checked at once, with one evaluation of the lexer for each text.
private theorem closingTexts_close : closingTexts.all (closes ·.toList) = true := by
  decide +kernel

private theorem templateTexts_sealed : templateTexts.all (isSealed ·.toList) = true := by
  decide +kernel

private theorem closes_of_mem {text : String} (member : text ∈ closingTexts) :
    closes text.toList = true :=
  List.all_eq_true.1 closingTexts_close text member

private theorem isSealed_of_mem {text : String} (member : text ∈ templateTexts) :
    isSealed text.toList = true :=
  List.all_eq_true.1 templateTexts_sealed text member

namespace Framed

variable {opening text closing : String} {span : Span}

/-- A text of templates on its own. -/
theorem of_mem (member : text ∈ templateTexts) : Framed [.fresh text] :=
  fresh (isSealed_of_mem member)

/-- A copy between two texts of templates. -/
theorem statement (isOpening : opening ∈ templateTexts) (isClosing : closing ∈ closingTexts) :
    Framed [.fresh opening, .copied span, .fresh closing] :=
  (of_mem isOpening).append
    (.copied (closes_of_mem isClosing) (of_mem (List.mem_append_right _ isClosing)))

end Framed

private theorem framed_statementOf (span : Span) : Framed (statementOf span) :=
  .statement (by simp [templateTexts]) (by simp [closingTexts])

/-- What holds of statements holds of all that is emitted for an attribute. -/
theorem attributePieces_closed {P : List Piece → Prop} (nil : P [])
    (append : ∀ first second, P first → P second → P (first ++ second))
    (statement : ∀ span, P (statementOf span))
    (spread : ∀ span, P [.fresh "(\x7b...", .copied span, .fresh "\x7d);\n"]) (a : Attribute) :
    P (attributePieces source a) := by
  cases a with
  | plain a =>
    rw [attributePieces]
    induction a.value with
    | nil => exact nil
    | cons part rest ih =>
      refine append _ _ ?_ ih
      cases part with
      | text t => exact nil
      | expression e => exact statement _
  | shorthand e => exact statement _
  | spread e => exact spread _
  | directive d =>
    have name : P (nameStatement source d) := by
      unfold nameStatement
      split
      · exact nil
      · exact statement _
    have value : P (valueStatement d) := by
      unfold valueStatement
      split
      · exact statement _
      · exact nil
    have either : P (if d.value.isSome then valueStatement d else nameStatement source d) := by
      split
      · exact value
      · exact name
    change P (directivePieces source d)
    unfold directivePieces
    cases d.kind with
    | slotProp => exact nil
    | on => exact value
    | bind | classToggle | style => exact either
    | action | transition | intro | outro | animate => exact append _ _ name value

private theorem framed_attributePieces (a : Attribute) : Framed (attributePieces source a) :=
  attributePieces_closed .nil (fun _ _ => Framed.append) framed_statementOf
    (fun _ => .statement (by simp [templateTexts]) (by simp [closingTexts])) a

private theorem framed_slotBindingPieces (d : Directive) : Framed (slotBindingPieces source d) :=
  .statement (by simp [templateTexts]) (by simp [closingTexts])

private theorem framed_elementPieces {head : ElementHead} {children : List Piece}
    (inner : Framed children) : Framed (elementPieces source head children) := by
  have attributes : Framed (head.attributes.flatMap (attributePieces source)) :=
    .flatMap fun a _ => framed_attributePieces a
  refine attributes.append ?_
  split
  · exact inner
  · have opening : Framed [.fresh "\x7b\n"] := .of_mem (by simp [templateTexts])
    have closing : Framed [.fresh "\x7d\n"] := .of_mem (by simp [templateTexts])
    have declared : Framed ((slotBindings head.attributes).flatMap (slotBindingPieces source)) :=
      .flatMap fun d _ => framed_slotBindingPieces d
    exact ((opening.append declared).append inner).append closing

private theorem framed_tagPieces (kind : TagKind) (e : Option Expression) : Framed (tagPieces kind e) := by
  cases e with
  | none => exact .nil
  | some e =>
    cases kind with
    | html | debug => exact framed_statementOf _
    | const => exact .statement (by simp [templateTexts]) (by simp [closingTexts])

private theorem framed_conditionPieces (condition : Expression) : Framed (conditionPieces condition) :=
  .statement (by simp [templateTexts]) (by simp [closingTexts])

private theorem framed_eachPieces (head : EachHead) : Framed (eachPieces head) := by
  have subject : Framed [.fresh " of __sveltets_each(", .copied head.expression.span,
      .fresh ")) \x7b\n"] :=
    .statement (by simp [templateTexts, closingTexts]) (by simp [closingTexts])
  have closing : closes " of __sveltets_each(".toList = true :=
    closes_of_mem (by simp [closingTexts])
  refine ((Framed.frame (isSealed_of_mem (by simp [templateTexts])) ?_).append ?_).append ?_
  · cases head.context with
    | none => exact .word (by decide +kernel) closing subject
    | some context => exact .copied closing subject
  · cases head.index with
    | none => exact .nil
    | some index => exact .statement (by simp [templateTexts]) (by simp [closingTexts])
  · cases head.key with
    | none => exact .nil
    | some key => exact framed_statementOf _

private theorem framed_thenPieces (head : AwaitHead) : Framed (thenPieces head) := by
  unfold thenPieces
  split
  · have declared : closes " = __sveltets_awaited(".toList = true :=
      closes_of_mem (by simp [closingTexts])
    refine .frame (isSealed_of_mem (by simp [templateTexts])) (.copied declared ?_)
    exact .statement (by simp [templateTexts, closingTexts]) (by simp [closingTexts])
  · exact .nil

private theorem framed_catchPieces (head : AwaitHead) : Framed (catchPieces head) := by
  unfold catchPieces
  split
  · exact .statement (by simp [templateTexts]) (by simp [closingTexts])
  · exact .nil

mutual

private theorem framed_nodePieces : ∀ node : Node, Framed (nodePieces source node)
  | .element head children => framed_elementPieces (framed_nodesPieces children)
  | .text _ | .comment _ => .nil
  | .mustache _ e => framed_statementOf e.span
  | .tag _ kind e => framed_tagPieces kind e
  | .ifBlock _ condition consequent alternate =>
    ((((framed_conditionPieces condition).append (framed_nodesPieces consequent)).append
      (.of_mem (by simp [templateTexts]))).append (framed_alternatePieces alternate)).append
      (.of_mem (by simp [templateTexts]))
  | .each head body fallback =>
    (((framed_eachPieces head).append (framed_nodesPieces body)).append
      (.of_mem (by simp [templateTexts]))).append (framed_branchPieces .nil fallback)
  | .await head pending onThen onCatch =>
    (((framed_statementOf head.expression.span).append (framed_nodesPieces pending)).append
      (framed_branchPieces (framed_thenPieces head) onThen)).append
      (framed_branchPieces (framed_catchPieces head) onCatch)
  | .key _ e body => (framed_statementOf e.span).append (framed_nodesPieces body)

private theorem framed_nodesPieces : ∀ nodes : List Node, Framed (nodesPieces source nodes)
  | [] => .nil
  | node :: rest => (framed_nodePieces node).append (framed_nodesPieces rest)

private theorem framed_branchPieces {declared : List Piece} (framed : Framed declared) :
    ∀ branch : Option (List Node), Framed (branchPieces source declared branch)
  | none => .nil
  | some nodes =>
    (((Framed.of_mem (by simp [templateTexts])).append framed).append
      (framed_nodesPieces nodes)).append (.of_mem (by simp [templateTexts]))

private theorem framed_alternatePieces : ∀ rest : Alternate, Framed (alternatePieces source rest)
  | .absent => .nil
  | .otherwise nodes =>
    ((Framed.of_mem (by simp [templateTexts])).append (framed_nodesPieces nodes)).append
      (.of_mem (by simp [templateTexts]))
  | .elseIf _ condition consequent alternate =>
    ((((Framed.of_mem (by simp [templateTexts])).append (framed_conditionPieces condition)).append
      (framed_nodesPieces consequent)).append (.of_mem (by simp [templateTexts]))).append
      (framed_alternatePieces alternate)

end

theorem framed_templatePieces (nodes : List Node) : Framed (templatePieces source nodes) :=
  ((Framed.of_mem (by simp [templateTexts])).append (framed_nodesPieces nodes)).append
    (.of_mem (by simp [templateTexts, closingTexts]))

/-- The tokens of pieces, each lexed on its own at its place. -/
def pieceTokens (source : String) (offset : Nat) : List Piece → List Token
  | [] => []
  | piece :: rest =>
    tokensFrom offset (piece.emitted source).toList ++
      pieceTokens source (offset + byteSize (piece.emitted source).toList) rest

theorem pieceTokens_append (offset : Nat) (first second : List Piece) :
    pieceTokens source offset (first ++ second) = pieceTokens source offset first ++
      pieceTokens source (offset + byteSize (Draft.emittedChars source first)) second := by
  induction first generalizing offset with
  | nil => rfl
  | cons piece rest ih =>
    rw [List.cons_append, pieceTokens, pieceTokens, ih, Draft.emittedChars_cons, byteSize_append,
      Nat.add_assoc, List.append_assoc]

private theorem isClosing_iff {text : List Char} : closes text = true ↔
    (∃ c, text.head? = some c ∧ isMild c = true) ∧
      ∃ t ∈ tokens text, t.start < byteSize (text.takeWhile isPlain) := by
  simp [closes, Option.any_eq_true]

/-- A closing text begins with a mild character. -/
theorem mild_of_closes {closing : String} {rest : List Piece}
    (isClosing : closes closing.toList = true) :
    Mild (Draft.emittedChars source (.fresh closing :: rest)) := by
  obtain ⟨⟨c, first, mild⟩, _⟩ := isClosing_iff.1 isClosing
  intro d head
  rw [Draft.emittedChars_cons, Piece.emitted, List.head?_append, first] at head
  cases head
  exact mild

/-- If no copy is open-ended, all pieces are lexed as if they stood alone. -/
theorem Framed.tokensFrom_emittedChars {pieces : List Piece} (framed : Framed pieces)
    (ended : ∀ span, .copied span ∈ pieces → openEnded (span.text source).toList = false)
    (offset : Nat) :
    tokensFrom offset (Draft.emittedChars source pieces) = pieceTokens source offset pieces := by
  induction framed generalizing offset with
  | nil => rw [Draft.emittedChars_nil, tokensFrom, pieceTokens]
  | frame isSealed _ ih =>
    rw [Draft.emittedChars_cons, pieceTokens, ← ih fun span later => ended span (.tail _ later)]
    exact (kept_of_sealed isSealed).tokensFrom_append
  | word closed isClosing _ ih =>
    rw [Draft.emittedChars_cons, pieceTokens, ← ih fun span later => ended span (.tail _ later)]
    exact (kept_of_mild closed (mild_of_closes isClosing)).tokensFrom_append
  | copied isClosing _ ih =>
    rw [Draft.emittedChars_cons, pieceTokens, ← ih fun span later => ended span (.tail _ later)]
    exact (kept_of_mild (ended _ (.head _)) (mild_of_closes isClosing)).tokensFrom_append

/-- A copy has a closing text behind it of which a token is none of the text of the pieces. -/
def TakesIn (source : String) (offset : Nat) (pieces : List Piece) : Prop :=
  ∃ before span closing after, pieces = before ++ .copied span :: .fresh closing :: after ∧
    ∃ t ∈ tokensFrom (offset + byteSize (Draft.emittedChars source (before ++ [.copied span])))
      closing.toList, t ∉ tokensFrom offset (Draft.emittedChars source pieces)

theorem TakesIn.cons {offset : Nat} {piece : Piece} {rest : List Piece}
    (kept : Kept (Draft.emittedChars source rest) (piece.emitted source).toList)
    (takesIn : TakesIn source (offset + byteSize (piece.emitted source).toList) rest) :
    TakesIn source offset (piece :: rest) := by
  obtain ⟨before, span, closing, after, rfl, t, member, lost⟩ := takesIn
  refine ⟨piece :: before, span, closing, after, rfl, t, ?_, ?_⟩
  · rw [List.cons_append, Draft.emittedChars_cons, byteSize_append, ← Nat.add_assoc]
    exact member
  · rw [Draft.emittedChars_cons, kept.tokensFrom_append, List.mem_append, not_or]
    refine ⟨fun early => ?_, lost⟩
    have first := start_lt_of_mem early
    have second := le_start_of_mem member
    omega

/-- An open-ended copy takes its closing text in. -/
theorem takesIn_of_openEnded {offset : Nat} {span : Span} {closing : String} {rest : List Piece}
    (unended : openEnded (span.text source).toList = true)
    (isClosing : closes closing.toList = true) :
    TakesIn source offset (.copied span :: .fresh closing :: rest) := by
  obtain ⟨_, t, member, early⟩ := isClosing_iff.1 isClosing
  let plain := closing.toList.takeWhile isPlain
  change t.start < byteSize plain at early
  let later := closing.toList.dropWhile isPlain ++ Draft.emittedChars source rest
  have whole : Draft.emittedChars source (.fresh closing :: rest) = plain ++ later := by
    rw [Draft.emittedChars_cons, ← List.append_assoc, List.takeWhile_append_dropWhile]
    rfl
  have arePlain : ∀ d ∈ plain, isPlain d = true := fun d => List.mem_takeWhile_imp
  have mild := @mild_of_closes source _ rest isClosing
  rw [whole] at mild
  refine ⟨[], span, closing, rest, rfl, ?_, ?_, fun taken => ?_⟩
  · exact ⟨t.kind, offset + byteSize (span.text source).toList + t.start, t.chars⟩
  · rw [List.nil_append, Draft.emittedChars_cons, Draft.emittedChars_nil, List.append_nil]
    exact mem_tokensFrom_add (offset + byteSize (span.text source).toList) member
  · rw [Draft.emittedChars_cons, whole] at taken
    have start := not_start_of_openEnded unended arePlain mild taken
    rw [byteSize_append] at start
    dsimp only at start
    omega

private theorem Framed.takesIn {pieces : List Piece} (framed : Framed pieces) {span : Span}
    (member : .copied span ∈ pieces) (unended : openEnded (span.text source).toList = true)
    (offset : Nat) : TakesIn source offset pieces := by
  induction framed generalizing offset with
  | nil => cases member
  | frame isSealed _ ih =>
    have later := (List.mem_cons.1 member).resolve_left nofun
    exact .cons (kept_of_sealed isSealed) (ih later _)
  | word closed isClosing _ ih =>
    have later := (List.mem_cons.1 member).resolve_left nofun
    exact .cons (kept_of_mild closed (mild_of_closes isClosing)) (ih later _)
  | @copied first closing rest isClosing _ ih =>
    cases here : openEnded (first.text source).toList with
    | true => exact takesIn_of_openEnded here isClosing
    | false =>
      rcases List.mem_cons.1 member with same | later
      · rw [Piece.copied.inj same, here] at unended
        cases unended
      · exact .cons (kept_of_mild here (mild_of_closes isClosing)) (ih later _)

/-- Every copy has a closing text with tokens behind it. -/
theorem Framed.exists_closing {pieces : List Piece} (framed : Framed pieces) {span : Span}
    (member : .copied span ∈ pieces) : ∃ before closing after,
      pieces = before ++ .copied span :: .fresh closing :: after ∧ tokens closing.toList ≠ [] := by
  have further {piece : Piece} {rest : List Piece}
      (later : ∃ before closing after, rest = before ++ .copied span :: .fresh closing :: after ∧
        tokens closing.toList ≠ []) :
      ∃ before closing after, piece :: rest = before ++ .copied span :: .fresh closing :: after ∧
        tokens closing.toList ≠ [] := by
    obtain ⟨before, closing, after, rfl, filled⟩ := later
    exact ⟨piece :: before, closing, after, rfl, filled⟩
  induction framed with
  | nil => cases member
  | frame _ _ ih | word _ _ _ ih =>
    exact further (ih ((List.mem_cons.1 member).resolve_left nofun))
  | @copied first closing rest isClosing _ ih =>
    rcases List.mem_cons.1 member with same | later
    · obtain ⟨_, t, inClosing, _⟩ := isClosing_iff.1 isClosing
      exact ⟨[], closing, rest, by rw [same]; rfl, List.ne_nil_of_mem inClosing⟩
    · exact further (ih later)

/-- The closing text behind each copy is lexed as tokens of its own in the text of all pieces. -/
def ClosingsLexed (source : String) (pieces : List Piece) : Prop :=
  ∀ before span closing after, pieces = before ++ .copied span :: .fresh closing :: after →
    ∀ t ∈ tokensFrom (byteSize (Draft.emittedChars source (before ++ [.copied span])))
      closing.toList, t ∈ tokens (Draft.ofPieces source pieces).code.toList

/-- Behind each copy a template has a closing text with tokens. The closing texts are lexed as
tokens of their own exactly if no copy is open-ended, that is, if each ends the strings, template
literals and comments that it begins. -/
theorem closings_lexed_iff (source : String) (nodes : List Node) :
    (∀ span, .copied span ∈ templatePieces source nodes → ∃ before closing after,
      templatePieces source nodes = before ++ .copied span :: .fresh closing :: after ∧
        tokens closing.toList ≠ []) ∧
    (ClosingsLexed source (templatePieces source nodes) ↔
      ∀ span, .copied span ∈ templatePieces source nodes →
        openEnded (span.text source).toList = false) := by
  have framed := @framed_templatePieces source nodes
  refine ⟨fun span => framed.exists_closing, fun lexed span member => ?_, fun ended => ?_⟩
  · cases isOpen : openEnded (span.text source).toList with
    | false => rfl
    | true =>
      obtain ⟨before, first, closing, after, whole, t, inClosing, lost⟩ :=
        framed.takesIn member isOpen 0
      rw [Nat.zero_add] at inClosing
      have found := lexed before first closing after whole t inClosing
      rw [Draft.toList_code_ofPieces] at found
      exact absurd found lost
  · intro before span closing after whole t inClosing
    rw [Draft.toList_code_ofPieces, tokens, framed.tokensFrom_emittedChars ended, whole,
      List.append_cons, pieceTokens_append, pieceTokens, Nat.zero_add]
    exact List.mem_append_right _ (List.mem_append_left _ inClosing)

/-- This expression ends in a comment, which takes in the parenthesis that closes its copy. -/
theorem closing_in_comment : (parse "\x7ba // b\n\x7d").errors = [] ∧
    ¬ClosingsLexed "\x7ba // b\n\x7d"
      (templatePieces "\x7ba // b\n\x7d" (parse "\x7ba // b\n\x7d").document.fragment) := by
  refine ⟨by decide +kernel, fun lexed => ?_⟩
  have found := lexed [.fresh "(() => \x7b\n", .fresh "("] ⟨1, 7⟩ ");\n" [.fresh "\x7d);\n"]
    (by decide +kernel) ⟨.closing .paren, 16, [')']⟩ (by decide +kernel)
  exact absurd found (by decide +kernel)

end TypedSvelte.Component
