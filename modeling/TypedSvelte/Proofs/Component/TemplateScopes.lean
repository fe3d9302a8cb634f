import TypedSvelte.Proofs.Component.TemplateClosings
import TypedSvelte.Proofs.Component.TemplateLayout
import TypedSvelte.Proofs.Markup.BraceScopes

/-!
# Scopes of templates

The branches of elements without properties of a slot, of keys and of pending promises are emitted
as they are, and so are the declarations in them. So a constant is declared in the block of the
nearest branch around it that has one. Two constants are declared in the same block exactly if that
branch is the same (`constant_scopes`), provided that each copy is enclosed: the braces of the blocks
are then the only ones that a declaration can stand in.
-/
namespace TypedSvelte.Component

open Markup

variable {source : String}

def CopiesEnclosed (source : String) (pieces : List Piece) : Prop :=
  ∀ span, .copied span ∈ pieces → IsEnclosed (span.text source).toList

instance (source : String) (pieces : List Piece) : Decidable (CopiesEnclosed source pieces) :=
  decidable_of_iff (pieces.all (fun
    | .copied span => decide (IsEnclosed (span.text source).toList)
    | _ => true) = true) <| by
    rw [List.all_eq_true]
    constructor
    · exact fun each span member => of_decide_eq_true (each _ member)
    · intro each piece member
      cases piece with
      | copied span => exact decide_eq_true (each span member)
      | fresh _ | replaced _ _ => rfl

/-- The number of braces open behind pieces, `n` being open before them, if the copies are
enclosed. -/
def bracesPast (n : Nat) : List Piece → Option Nat
  | [] => some n
  | .copied _ :: rest => bracesPast n rest
  | .fresh text :: rest | .replaced _ text :: rest =>
    (bracesBehind n (tokens text.toList)).bind (bracesPast · rest)

/-- Behind the pieces `m` braces are open if `n` are before them. -/
def Turns (n m : Nat) (pieces : List Piece) : Prop := bracesPast n pieces = some m

variable {first second pieces : List Piece} {text opening closing : String} {span : Span}
  {k n m offset : Nat}

private theorem copiesEnclosed_append : CopiesEnclosed source (first ++ second) ↔
    CopiesEnclosed source first ∧ CopiesEnclosed source second := by
  simp only [CopiesEnclosed, List.mem_append, or_imp, forall_and]

/-- Where the copies are enclosed, the other pieces tell the braces. -/
theorem bracesBehind_pieceTokens (enclosed : CopiesEnclosed source pieces) :
    bracesBehind n (pieceTokens source offset pieces) = bracesPast n pieces := by
  induction pieces generalizing n offset with
  | nil => rfl
  | cons piece rest ih =>
    have others : CopiesEnclosed source rest := fun s later => enclosed s (.tail _ later)
    rw [pieceTokens, bracesBehind_append, bracesBehind_tokensFrom]
    simp only [ih others]
    cases piece with
    | copied span =>
      have matched := bracesBehind_add (enclosed span (.head _)).2 n
      rw [Nat.zero_add] at matched
      change (bracesBehind n (tokens (span.text source).toList)).bind _ = _
      rw [matched]
      rfl
    | fresh text => rfl
    | replaced span text => rfl

namespace Turns

theorem nil : Turns n n [] := rfl

theorem copied : Turns n n [.copied span] := rfl

theorem fresh (behind : bracesBehind n (tokens text.toList) = some m) : Turns n m [.fresh text] := by
  rw [Turns, bracesPast, behind]
  rfl

theorem append (here : Turns n m first) (there : Turns m k second) : Turns n k (first ++ second) := by
  unfold Turns at *
  induction first generalizing n with
  | nil =>
    cases here
    exact there
  | cons piece rest ih =>
    cases piece with
    | copied span => exact ih here
    | fresh text | replaced span text =>
      obtain ⟨between, behind, later⟩ := Option.bind_eq_some_iff.1 here
      rw [List.cons_append, bracesPast, behind]
      exact ih later

/-- Braces around the pieces play no part. -/
theorem add (turns : Turns n m pieces) (more : Nat) : Turns (n + more) (m + more) pieces := by
  unfold Turns at *
  induction pieces generalizing n with
  | nil =>
    cases turns
    rfl
  | cons piece rest ih =>
    cases piece with
    | copied span => exact ih turns
    | fresh text | replaced span text =>
      obtain ⟨between, behind, later⟩ := Option.bind_eq_some_iff.1 turns
      rw [bracesPast, bracesBehind_add behind]
      exact ih later

theorem flatMap {α : Type} {xs : List α} {f : α → List Piece} (each : ∀ x ∈ xs, Turns 0 0 (f x)) :
    Turns 0 0 (xs.flatMap f) := by
  induction xs with
  | nil => exact nil
  | cons x rest ih =>
    obtain ⟨here, others⟩ := List.forall_mem_cons.1 each
    exact here.append (ih others)

end Turns

/-- The texts of templates that match their braces. -/
def matchedTexts : List String :=
  ["(", ");\n", "let ", " = __sveltets_any;\n", "const ", ";\n", "if (", "for (const ",
    "__sveltets_item", " of __sveltets_each(", " = 0;\n", " = __sveltets_awaited(", "\n", " else "]

def openingTexts : List String :=
  ["(\x7b...", "\x7b\n", ") \x7b\n", ")) \x7b\n", " else \x7b\n", "(() => \x7b\n"]

def endingTexts : List String := ["\x7d\n", "\x7d", "\x7d);\n"]

private theorem matchedTexts_match :
    matchedTexts.all (fun text => bracesBehind 0 (tokens text.toList) == some 0) = true := by
  decide +kernel

private theorem openingTexts_open :
    openingTexts.all (fun text => bracesBehind 0 (tokens text.toList) == some 1) = true := by
  decide +kernel

private theorem endingTexts_close :
    endingTexts.all (fun text => bracesBehind 1 (tokens text.toList) == some 0) = true := by
  decide +kernel

namespace Turns

theorem matched (member : text ∈ matchedTexts) : Turns 0 0 [.fresh text] :=
  fresh (eq_of_beq (List.all_eq_true.1 matchedTexts_match text member))

theorem opens (member : text ∈ openingTexts) : Turns 0 1 [.fresh text] :=
  fresh (eq_of_beq (List.all_eq_true.1 openingTexts_open text member))

theorem ends (member : text ∈ endingTexts) : Turns 1 0 [.fresh text] :=
  fresh (eq_of_beq (List.all_eq_true.1 endingTexts_close text member))

/-- A copy between two texts that match their braces. -/
theorem statement (before : opening ∈ matchedTexts) (behind : closing ∈ matchedTexts) :
    Turns 0 0 [.fresh opening, .copied span, .fresh closing] :=
  (matched before).append (copied.append (matched behind))

/-- A copy between a text that matches its braces and one that opens a brace. -/
theorem header (before : opening ∈ matchedTexts) (behind : closing ∈ openingTexts) :
    Turns 0 1 [.fresh opening, .copied span, .fresh closing] :=
  (matched before).append (copied.append (opens behind))

end Turns

private theorem turns_statementOf (span : Span) : Turns 0 0 (statementOf span) :=
  .statement (by simp [matchedTexts]) (by simp [matchedTexts])

private theorem turns_attributePieces (a : Attribute) : Turns 0 0 (attributePieces source a) :=
  attributePieces_closed .nil (fun _ _ => Turns.append) turns_statementOf
    (fun _ => (Turns.opens (by simp [openingTexts])).append
      (Turns.copied.append (.ends (by simp [endingTexts])))) a

private theorem turns_tagPieces (kind : TagKind) (e : Option Expression) : Turns 0 0 (tagPieces kind e) := by
  cases e with
  | none => exact .nil
  | some e =>
    cases kind with
    | html | debug => exact turns_statementOf _
    | const => exact .statement (by simp [matchedTexts]) (by simp [matchedTexts])

private theorem turns_conditionPieces (condition : Expression) : Turns 0 1 (conditionPieces condition) :=
  .header (by simp [matchedTexts]) (by simp [openingTexts])

private theorem turns_eachPieces (head : EachHead) : Turns 0 1 (eachPieces head) := by
  obtain ⟨span, e, context, index, key⟩ := head
  have loop {binding : Piece} (isMatched : Turns 0 0 [binding]) : Turns 0 1
      [.fresh "for (const ", binding, .fresh " of __sveltets_each(", .copied e.span,
        .fresh ")) \x7b\n"] :=
    (Turns.matched (by simp [matchedTexts])).append
      (isMatched.append (.header (by simp [matchedTexts]) (by simp [openingTexts])))
  have inner {own : List Piece} (isMatched : Turns 0 0 own) : Turns 1 1 own := isMatched.add 1
  refine ((?_ : Turns 0 1 _).append (inner ?_)).append (inner ?_)
  · cases context with
    | none => exact loop (.matched (by simp [matchedTexts]))
    | some context => exact loop .copied
  · cases index with
    | none => exact .nil
    | some index =>
      exact .statement (by simp [matchedTexts]) (by simp [matchedTexts])
  · cases key with
    | none => exact .nil
    | some key => exact turns_statementOf key.span

private theorem turns_thenPieces (head : AwaitHead) : Turns 0 0 (thenPieces head) := by
  unfold thenPieces
  split
  · exact (Turns.matched (by simp [matchedTexts])).append
      (Turns.copied.append (.statement (by simp [matchedTexts]) (by simp [matchedTexts])))
  · exact .nil

private theorem turns_catchPieces (head : AwaitHead) : Turns 0 0 (catchPieces head) := by
  unfold catchPieces
  split
  · exact .statement (by simp [matchedTexts]) (by simp [matchedTexts])
  · exact .nil

/-- A branch with a block of its own opens one brace and closes it, and another branch is emitted as
it is. -/
def Branch.Fits (b : Branch) : Prop :=
  if b.opens then Turns 0 1 b.opening ∧ Turns 1 0 b.closing else b.opening = [] ∧ b.closing = []

private theorem Branch.fits_block {declared : List Piece} (isMatched : Turns 0 0 declared)
    (nodes : List Node) : (Branch.block declared nodes).Fits :=
  ⟨(Turns.opens (by simp [openingTexts])).append (isMatched.add 1), .ends (by simp [endingTexts])⟩

private theorem Branch.fits_bare (nodes : List Node) : (Branch.bare nodes).Fits := ⟨rfl, rfl⟩

theorem Branch.Fits.turns {b : Branch} (fits : b.Fits) (inner : Turns 0 0 (nodesPieces source b.nodes)) :
    Turns 0 0 (b.pieces source) := by
  unfold Fits at fits
  split at fits
  · exact (fits.1.append (inner.add 1)).append fits.2
  · rw [pieces, fits.1, fits.2, List.append_nil]
    exact inner

private theorem fits_alternate {b : Branch} : ∀ rest : Alternate, b ∈ alternateBranches rest → b.Fits
  | .absent, member => by cases member
  | .otherwise nodes, member => by
    cases List.mem_singleton.1 member
    exact ⟨.opens (by simp [openingTexts]), .ends (by simp [endingTexts])⟩
  | .elseIf _ condition consequent alternate, member => by
    rcases List.mem_cons.1 member with rfl | later
    · exact ⟨(Turns.matched (by simp [matchedTexts])).append (turns_conditionPieces condition),
        .ends (by simp [endingTexts])⟩
    · exact fits_alternate alternate later

private theorem fits_childBranch (head : ElementHead) (children : List Node) :
    (childBranch source head children).Fits := by
  unfold childBranch
  split
  · exact Branch.fits_bare _
  · exact Branch.fits_block
      (.flatMap fun d _ => .statement (by simp [matchedTexts]) (by simp [matchedTexts])) _

/-- The branches of a node fit, and what is emitted around them matches its braces. -/
theorem nodeLayout_fits (node : Node) :
    (∀ b ∈ (nodeLayout source node).branches, b.Fits) ∧
      Turns 0 0 (nodeLayout source node).lead ∧ Turns 0 0 (nodeLayout source node).trail := by
  cases node with
  | element head children =>
    refine ⟨fun b member => ?_, .flatMap fun a _ => turns_attributePieces a, .nil⟩
    cases List.mem_singleton.1 member
    exact fits_childBranch head children
  | text _ | comment _ => exact ⟨nofun, .nil, .nil⟩
  | mustache _ e => exact ⟨nofun, turns_statementOf _, .nil⟩
  | tag _ kind e => exact ⟨nofun, turns_tagPieces kind e, .nil⟩
  | ifBlock _ condition consequent alternate =>
    refine ⟨fun b member => ?_, .nil, .matched (by simp [matchedTexts])⟩
    rcases List.mem_cons.1 member with rfl | later
    · exact ⟨turns_conditionPieces condition, .ends (by simp [endingTexts])⟩
    · exact fits_alternate alternate later
  | each head body fallback =>
    refine ⟨fun b member => ?_, .nil, .nil⟩
    rcases List.mem_cons.1 member with rfl | inFallback
    · exact ⟨turns_eachPieces head, .ends (by simp [endingTexts])⟩
    · obtain ⟨nodes, _, rfl⟩ := Option.map_eq_some_iff.1 (Option.mem_toList.1 inFallback)
      exact Branch.fits_block .nil nodes
  | await head pending onThen onCatch =>
    refine ⟨fun b member => ?_, turns_statementOf _, .nil⟩
    rcases List.mem_append.1 member with first | inCatch
    · rcases List.mem_cons.1 first with rfl | inThen
      · exact Branch.fits_bare pending
      · obtain ⟨nodes, _, rfl⟩ := Option.map_eq_some_iff.1 (Option.mem_toList.1 inThen)
        exact Branch.fits_block (turns_thenPieces head) nodes
    · obtain ⟨nodes, _, rfl⟩ := Option.map_eq_some_iff.1 (Option.mem_toList.1 inCatch)
      exact Branch.fits_block (turns_catchPieces head) nodes
  | key _ e body =>
    refine ⟨fun b member => ?_, turns_statementOf _, .nil⟩
    cases List.mem_singleton.1 member
    exact Branch.fits_bare body

mutual

private theorem turns_nodePieces (node : Node) : Turns 0 0 (nodePieces source node) := by
  obtain ⟨fits, lead, trail⟩ := @nodeLayout_fits source node
  rw [nodePieces_eq]
  refine (lead.append (.flatMap fun b member => ?_)).append trail
  have smaller := sizeOf_branch member
  exact (fits b member).turns (turns_nodesPieces b.nodes)
  termination_by sizeOf node

/-- What is emitted for nodes matches its braces. -/
theorem turns_nodesPieces (nodes : List Node) : Turns 0 0 (nodesPieces source nodes) := by
  cases nodes with
  | nil => exact .nil
  | cons node rest => exact (turns_nodePieces node).append (turns_nodesPieces rest)
  termination_by sizeOf nodes

end

/-- The places of the braces of the blocks around the nodes at the end of a way, the innermost
first, if the outermost nodes are emitted at `offset`. -/
def blockBraces (source : String) : List Node → Nat → Way → List Nat
  | _, _, [] => []
  | nodes, offset, step :: way =>
    match branchAt? source nodes step with
    | none => []
    | some b =>
      let start := offset + Draft.emittedSize source (leadIn source nodes step)
      blockBraces source b.nodes (start + Draft.emittedSize source b.opening) way
        ++ openBraces [] (pieceTokens source start b.opening)

section

variable {nodes : List Node} {step : Nat × Nat} {way other : Way} {b : Branch}
  {stack xs ys own : List Nat} {x start : Nat}

private theorem fits_branchAt (found : branchAt? source nodes step = some b) : b.Fits := by
  obtain ⟨node, _, inNode⟩ := Option.bind_eq_some_iff.1 found
  exact (nodeLayout_fits node).1 b (List.mem_of_getElem? inNode)

private theorem turns_leadIn : Turns 0 0 (leadIn source nodes step) := by
  refine (turns_nodesPieces _).append ?_
  split
  · exact .nil
  · rename_i node _
    obtain ⟨fits, lead, _⟩ := @nodeLayout_fits source node
    exact lead.append (.flatMap fun b member =>
      (fits b (List.mem_of_mem_take member)).turns (turns_nodesPieces _))

private theorem start_of_mem_pieceTokens {t : Token} (member : t ∈ pieceTokens source offset pieces) :
    offset ≤ t.start ∧ t.start < offset + Draft.emittedSize source pieces := by
  rw [Draft.emittedSize_eq]
  induction pieces generalizing offset with
  | nil => cases member
  | cons piece rest ih =>
    rw [Draft.emittedChars_cons, byteSize_append]
    rcases List.mem_append.1 member with here | later
    · have low := le_start_of_mem here
      have high := start_lt_of_mem here
      omega
    · have bounds := ih later
      omega

private theorem openBraces_pieces_append : openBraces stack (pieceTokens source offset (first ++ second)) =
    openBraces (openBraces stack (pieceTokens source offset first))
      (pieceTokens source (offset + Draft.emittedSize source first) second) := by
  rw [pieceTokens_append, openBraces_append, Draft.emittedSize_eq]

/-- Pieces that match their braces leave the open ones as they are. -/
theorem Turns.openBraces_eq (turns : Turns 0 0 pieces) (enclosed : CopiesEnclosed source pieces) :
    openBraces stack (pieceTokens source offset pieces) = stack :=
  openBraces_of_matched ((bracesBehind_pieceTokens enclosed).trans turns)

/-- A branch with a block of its own has one more brace around its nodes. -/
theorem Branch.Fits.openBraces_eq (fits : b.Fits) (start : Nat)
    (enclosed : CopiesEnclosed source b.opening) :
    (openBraces [] (pieceTokens source start b.opening)).length = (if b.opens then 1 else 0) ∧
      ∀ stack, openBraces stack (pieceTokens source start b.opening) =
        openBraces [] (pieceTokens source start b.opening) ++ stack := by
  unfold Fits at fits
  split at fits
  · rename_i opens
    have behind : bracesBehind 0 (pieceTokens source start b.opening) = some 1 :=
      (bracesBehind_pieceTokens enclosed).trans fits.1
    obtain ⟨size, around⟩ := @openBraces_append_outer _ [] 1 behind
    rw [if_pos opens]
    exact ⟨size, around⟩
  · rename_i closed
    rw [fits.1, if_neg closed]
    exact ⟨rfl, fun _ => rfl⟩

private theorem enclosed_of_branchAt (enclosed : CopiesEnclosed source (nodesPieces source nodes))
    (found : branchAt? source nodes step = some b) :
    CopiesEnclosed source (leadIn source nodes step) ∧ CopiesEnclosed source b.opening ∧
      CopiesEnclosed source (nodesPieces source b.nodes) := by
  obtain ⟨behind, whole⟩ := exists_emitted found
  rw [whole, Branch.pieces] at enclosed
  simp only [copiesEnclosed_append] at enclosed
  exact ⟨enclosed.1, enclosed.2.1.1.1, enclosed.2.1.1.2⟩

theorem CopiesEnclosed.take (enclosed : CopiesEnclosed source (nodesPieces source nodes)) (i : Nat) :
    CopiesEnclosed source (nodesPieces source (nodes.take i)) := by
  rw [← List.take_append_drop i nodes, nodesPieces_append, copiesEnclosed_append] at enclosed
  exact enclosed.1

/-- The braces open before a node are those of the blocks around it. -/
theorem openBraces_piecesBefore {inner : List Node} {i : Nat}
    (found : nodesAt? source nodes way = some inner)
    (enclosed : CopiesEnclosed source (nodesPieces source nodes)) :
    openBraces stack (pieceTokens source offset (piecesBefore source nodes way i)) =
      blockBraces source nodes offset way ++ stack := by
  induction way generalizing nodes offset stack with
  | nil => exact (turns_nodesPieces _).openBraces_eq (enclosed.take i)
  | cons step way ih =>
    obtain ⟨b, isBranch, further⟩ := Option.bind_eq_some_iff.1 found
    obtain ⟨before, opening, inside⟩ := enclosed_of_branchAt enclosed isBranch
    rw [piecesBefore, blockBraces, isBranch]
    dsimp only
    rw [openBraces_pieces_append, turns_leadIn.openBraces_eq before, openBraces_pieces_append,
      ((fits_branchAt isBranch).openBraces_eq _ opening).2, ih further inside, List.append_assoc]

/-- The braces on a way stand in the first branch on it. -/
theorem inside_of_mem_blockBraces (member : x ∈ blockBraces source nodes offset (step :: way)) :
    ∃ b, branchAt? source nodes step = some b ∧
      offset + Draft.emittedSize source (leadIn source nodes step) ≤ x ∧
      x < offset + Draft.emittedSize source (leadIn source nodes step) +
        Draft.emittedSize source (b.pieces source) := by
  induction way generalizing nodes offset step with
  | nil =>
    rw [blockBraces] at member
    split at member
    · cases member
    · rename_i b found
      rcases mem_openBraces (List.mem_append.1 member |>.resolve_left nofun) with nothing | brace
      · cases nothing
      · obtain ⟨t, inOpening, rfl⟩ := brace
        have bounds := start_of_mem_pieceTokens inOpening
        refine ⟨b, found, bounds.1, ?_⟩
        rw [Branch.pieces, Draft.emittedSize_append, Draft.emittedSize_append]
        omega
  | cons next way ih =>
    rw [blockBraces] at member
    split at member
    · cases member
    · rename_i b found
      refine ⟨b, found, ?_⟩
      rw [Branch.pieces, Draft.emittedSize_append, Draft.emittedSize_append]
      rcases List.mem_append.1 member with deeper | inOpening
      · obtain ⟨c, isBranch, low, high⟩ := ih deeper
        obtain ⟨behind, whole⟩ := exists_emitted isBranch
        rw [whole, Draft.emittedSize_append, Draft.emittedSize_append]
        omega
      · rcases mem_openBraces inOpening with nothing | ⟨t, inTokens, rfl⟩
        · cases nothing
        · have bounds := start_of_mem_pieceTokens inTokens
          omega

private theorem blockBraces_range (member : x ∈ blockBraces source nodes offset way) :
    offset ≤ x ∧ x < offset + Draft.emittedSize source (nodesPieces source nodes) := by
  cases way with
  | nil => cases member
  | cons step way =>
    obtain ⟨b, found, low, high⟩ := inside_of_mem_blockBraces member
    obtain ⟨behind, whole⟩ := exists_emitted found
    rw [whole, Draft.emittedSize_append, Draft.emittedSize_append]
    omega

/-- Places that are behind others differ from these. -/
theorem head?_append_iff (start : Nat) (above : ∀ x ∈ xs ++ ys, start ≤ x)
    (below : ∀ x ∈ own, x < start) :
    (xs ++ own).head? = (ys ++ own).head? ↔ xs.head? = ys.head? := by
  have apart {x : Nat} (behind : start ≤ x) : own.head? ≠ some x := by
    intro first
    have before := below x (List.mem_of_head? first)
    omega
  cases xs with
  | nil =>
    cases ys with
    | nil => exact iff_of_true rfl rfl
    | cons y ys => exact iff_of_false (apart (above y (.head _))) nofun
  | cons x xs =>
    cases ys with
    | nil =>
      refine iff_of_false (fun same => apart (above x (.head _)) same.symm) nofun
    | cons y ys => exact Iff.rfl

private theorem blockBraces_cons (found : branchAt? source nodes step = some b) :
    blockBraces source nodes offset (step :: way) =
      blockBraces source b.nodes (offset + Draft.emittedSize source (leadIn source nodes step) +
          Draft.emittedSize source b.opening) way ++
        openBraces [] (pieceTokens source
          (offset + Draft.emittedSize source (leadIn source nodes step)) b.opening) := by
  rw [blockBraces, found]

/-- There is a brace around the nodes at the end of a way exactly if there is a block. -/
theorem blockBraces_eq_nil_iff (enclosed : CopiesEnclosed source (nodesPieces source nodes)) :
    blockBraces source nodes offset way = [] ↔ scopeOf source nodes way = [] := by
  induction way generalizing nodes offset with
  | nil => exact iff_of_true rfl rfl
  | cons step way ih =>
    cases found : branchAt? source nodes step with
    | none => simp [blockBraces, scopeOf, found]
    | some b =>
      obtain ⟨_, opening, inside⟩ := enclosed_of_branchAt enclosed found
      have size := ((fits_branchAt found).openBraces_eq
        (offset + Draft.emittedSize source (leadIn source nodes step)) opening).1
      rw [blockBraces_cons found, scopeOf_cons found, List.append_eq_nil_iff, ih inside,
        ← List.length_eq_zero_iff (l := openBraces [] _), size]
      cases scopeOf source b.nodes way <;> cases b.opens <;> simp

/-- A way without a block on it has the same innermost brace as another exactly if that has none
either. -/
theorem head?_of_blockless (enclosed : CopiesEnclosed source (nodesPieces source nodes))
    (none : scopeOf source nodes way = []) :
    (blockBraces source nodes offset way).head? = (blockBraces source nodes offset other).head? ↔
      scopeOf source nodes way = scopeOf source nodes other := by
  rw [(blockBraces_eq_nil_iff enclosed).2 none, none, List.head?_nil, eq_comm,
    List.head?_eq_none_iff, blockBraces_eq_nil_iff enclosed, eq_comm]

/-- Blocks on ways that begin with different branches have different braces. -/
theorem head?_blockBraces_ne {next : Nat × Nat} (differ : step ≠ next)
    (enclosed : CopiesEnclosed source (nodesPieces source nodes))
    (filled : scopeOf source nodes (step :: way) ≠ []) :
    (blockBraces source nodes offset (step :: way)).head? ≠
      (blockBraces source nodes offset (next :: other)).head? := by
  intro same
  have nonempty : blockBraces source nodes offset (step :: way) ≠ [] :=
    mt (blockBraces_eq_nil_iff enclosed).1 filled
  obtain ⟨x, xs, whole⟩ := List.exists_cons_of_ne_nil nonempty
  have first : (blockBraces source nodes offset (step :: way)).head? = some x := by
    rw [whole]
    rfl
  rw [first] at same
  obtain ⟨b, found, low, high⟩ := inside_of_mem_blockBraces (List.mem_of_head? first)
  obtain ⟨c, isOther, lower, higher⟩ := inside_of_mem_blockBraces (List.mem_of_head? same.symm)
  rcases exists_between found isOther differ with ⟨between, parts⟩ | ⟨between, parts⟩
  · rw [parts, Draft.emittedSize_append, Draft.emittedSize_append] at lower
    omega
  · rw [parts, Draft.emittedSize_append, Draft.emittedSize_append] at low
    omega

/-- The innermost of the braces on two ways is the same exactly if the nearest block is. -/
theorem head?_blockBraces_iff (enclosed : CopiesEnclosed source (nodesPieces source nodes)) :
    (blockBraces source nodes offset way).head? = (blockBraces source nodes offset other).head? ↔
      scopeOf source nodes way = scopeOf source nodes other := by
  induction way generalizing nodes offset other with
  | nil => exact head?_of_blockless enclosed rfl
  | cons step way ih =>
    rcases scopeOf_cons_eq_nil_or source nodes step way with none | ⟨scope, isScope⟩
    · exact head?_of_blockless enclosed none
    cases other with
    | nil => exact eq_comm.trans ((head?_of_blockless enclosed rfl).trans eq_comm)
    | cons next other =>
      by_cases same : step = next
      · subst same
        cases found : branchAt? source nodes step with
        | none => simp [blockBraces, scopeOf, found]
        | some b =>
          obtain ⟨_, opening, inside⟩ := enclosed_of_branchAt enclosed found
          rw [blockBraces_cons found, blockBraces_cons found, scopeOf_cons found, scopeOf_cons found,
            head?_append_iff (offset + Draft.emittedSize source (leadIn source nodes step) +
              Draft.emittedSize source b.opening), ih inside]
          · cases scopeOf source b.nodes way <;> cases scopeOf source b.nodes other <;>
              cases b.opens <;> simp
          · intro x member
            exact (List.mem_append.1 member).elim (fun first => (blockBraces_range first).1)
              fun second => (blockBraces_range second).1
          · intro x member
            rcases mem_openBraces member with nothing | ⟨t, inTokens, rfl⟩
            · cases nothing
            · exact (start_of_mem_pieceTokens inTokens).2
      · refine iff_of_false (head?_blockBraces_ne same enclosed (by rw [isScope]; simp)) ?_
        rw [isScope]
        rcases scopeOf_cons_eq_nil_or source nodes next other with none | ⟨_, isOther⟩
        · simp [none]
        · rw [isOther]
          simp [same]

end

section

variable {nodes : List Node} {way : Way} {i : Nat}

/-- The tokens of a template are those of its pieces. -/
theorem tokens_template (enclosed : CopiesEnclosed source (templatePieces source nodes)) :
    tokens (Draft.ofPieces source (templatePieces source nodes)).code.toList =
      pieceTokens source 0 (templatePieces source nodes) := by
  rw [Draft.toList_code_ofPieces]
  exact (framed_templatePieces nodes).tokensFrom_emittedChars
    (fun span member => (enclosed span member).1) 0

private theorem enclosed_nodesPieces (enclosed : CopiesEnclosed source (templatePieces source nodes)) :
    CopiesEnclosed source (nodesPieces source nodes) :=
  fun span member => enclosed span (List.mem_append_left _ (List.mem_append_right _ member))

/-- The innermost brace before a node of a template is that of the nearest block around it, or else
that of the template. -/
theorem innermostBrace?_template {inner : List Node} {node : Node}
    (enclosed : CopiesEnclosed source (templatePieces source nodes))
    (found : nodesAt? source nodes way = some inner) (member : inner[i]? = some node) :
    innermostBrace? (Draft.ofPieces source (templatePieces source nodes)).code
        (placeOf source nodes way i) = (blockBraces source nodes 9 way ++ [7]).head? := by
  obtain ⟨after, whole⟩ := exists_template_split found member
  have template : openBraces [] (pieceTokens source 0 [.fresh "(() => \x7b\n"]) = [7] := by
    have text : openBraces [] (tokens "(() => \x7b\n".toList) = [7] := by decide +kernel
    exact (congrArg _ (List.append_nil _)).trans text
  have before : (pieceTokens source 0 (templatePieces source nodes)).filter
      (·.start < placeOf source nodes way i) =
        pieceTokens source 0 (.fresh "(() => \x7b\n" :: piecesBefore source nodes way i) := by
    rw [whole, pieceTokens_append, ← Draft.emittedSize_eq, List.filter_append,
      List.filter_eq_self.2, List.filter_eq_nil_iff.2, List.append_nil]
    · intro t later
      have bounds := start_of_mem_pieceTokens later
      rw [decide_eq_true_eq, placeOf]
      omega
    · intro t earlier
      have bounds := start_of_mem_pieceTokens earlier
      rw [decide_eq_true_eq, placeOf]
      omega
  rw [innermostBrace?, tokens_template enclosed, before, ← List.singleton_append,
    openBraces_pieces_append, template, openBraces_piecesBefore found (enclosed_nodesPieces enclosed)]
  rfl

/-- Where each copy of a template is enclosed, the declaration of each constant stands at its place
in a block, and two constants are declared in the same block exactly if the nearest branch around
them that has a block of its own is the same. -/
theorem constant_scopes (enclosed : CopiesEnclosed source (templatePieces source nodes)) :
    let code := (Draft.ofPieces source (templatePieces source nodes)).code
    (∀ way i e, constantAt? source nodes way i = some e →
      slice? code (placeOf source nodes way i)
          (placeOf source nodes way i + ("const " ++ e.span.text source ++ ";\n").utf8ByteSize) =
        some ("const " ++ e.span.text source ++ ";\n") ∧
      (innermostBrace? code (placeOf source nodes way i)).isSome) ∧
    ∀ way other i j e f, constantAt? source nodes way i = some e →
      constantAt? source nodes other j = some f →
      (innermostBrace? code (placeOf source nodes way i) =
          innermostBrace? code (placeOf source nodes other j) ↔
        scopeOf source nodes way = scopeOf source nodes other) := by
  refine ⟨fun way i e found => ⟨slice_constant found, ?_⟩, fun way other i j e f here there => ?_⟩
  · obtain ⟨inner, span, toInner, member⟩ := exists_constant found
    rw [innermostBrace?_template enclosed toInner member]
    cases blockBraces source nodes 9 way <;> rfl
  · obtain ⟨inner, span, toInner, member⟩ := exists_constant here
    obtain ⟨outer, _, toOuter, inOuter⟩ := exists_constant there
    rw [innermostBrace?_template enclosed toInner member,
      innermostBrace?_template enclosed toOuter inOuter, head?_append_iff 9,
      head?_blockBraces_iff (enclosed_nodesPieces enclosed)]
    · intro x inEither
      exact (List.mem_append.1 inEither).elim (fun first => (blockBraces_range first).1)
        fun second => (blockBraces_range second).1
    · intro x own
      cases List.mem_singleton.1 own
      decide

/-- The element has no block, so its constant is declared in that of the `{:else}` around it. -/
theorem constant_scopes_condition :
    let source := "\x7b#if a\x7d\x7b@const x = 1\x7d\x7b:else\x7d<p>\x7b@const x = 2\x7d</p>\x7b/if\x7d"
    let nodes := (parse source).document.fragment
    let code := (Draft.ofPieces source (templatePieces source nodes)).code
    CopiesEnclosed source (templatePieces source nodes) ∧
      constantAt? source nodes [(0, 0)] 0 = some ⟨⟨15, 20⟩, "x = 1"⟩ ∧
      constantAt? source nodes [(0, 1), (0, 0)] 0 = some ⟨⟨39, 44⟩, "x = 2"⟩ ∧
      scopeOf source nodes [(0, 1), (0, 0)] = [(0, 1)] ∧
      innermostBrace? code (placeOf source nodes [(0, 0)] 0) ≠
        innermostBrace? code (placeOf source nodes [(0, 1), (0, 0)] 0) := by
  intro source nodes code
  have enclosed : CopiesEnclosed source (templatePieces source nodes) := by decide +kernel
  have first : constantAt? source nodes [(0, 0)] 0 = some ⟨⟨15, 20⟩, "x = 1"⟩ := by decide +kernel
  have second : constantAt? source nodes [(0, 1), (0, 0)] 0 = some ⟨⟨39, 44⟩, "x = 2"⟩ := by
    decide +kernel
  have scopes : scopeOf source nodes [(0, 0)] ≠ scopeOf source nodes [(0, 1), (0, 0)] := by
    decide +kernel
  refine ⟨enclosed, first, second, by decide +kernel, fun same => scopes ?_⟩
  exact ((constant_scopes enclosed).2 _ _ _ _ _ _ first second).1 same

end

/-- A constant of a component and the innermost brace before its declaration in the template. -/
def declaration? (source : String) (way : Way) (i : Nat) : Option (String × Option Nat) :=
  let nodes := (parse source).document.fragment
  let code := (Draft.ofPieces source (templatePieces source nodes)).code
  (constantAt? source nodes way i).map fun e =>
    (e.text, innermostBrace? code (placeOf source nodes way i))

/-- The constants of sibling elements are declared in one block, and so are those of a key and of a
pending promise and the constant beside these. A comment that goes on behind its copy takes in the
brace of a block, so that the constants within and before it are declared in one as well. -/
theorem constants_collide :
    let elements := "<p>\x7b@const a = 1\x7d</p><p>\x7b@const a = 2\x7d</p>"
    let blocks := "\x7b@const a = 1\x7d\x7b#key k\x7d\x7b@const a = 2\x7d\x7b/key\x7d" ++
      "\x7b#await p\x7d\x7b@const a = 3\x7d\x7b/await\x7d"
    let comment := "\x7b@const a = 1\x7d\x7b#if b // c\n\x7d\x7b@const a = 2\x7d\x7b/if\x7d"
    (parse elements).errors = [] ∧
      declaration? elements [(0, 0)] 0 = some ("a = 1", some 7) ∧
      declaration? elements [(1, 0)] 0 = some ("a = 2", some 7) ∧
      (parse blocks).errors = [] ∧
      declaration? blocks [] 0 = some ("a = 1", some 7) ∧
      declaration? blocks [(1, 0)] 0 = some ("a = 2", some 7) ∧
      declaration? blocks [(2, 0)] 0 = some ("a = 3", some 7) ∧
      (parse comment).errors = [] ∧
      declaration? comment [] 0 = some ("a = 1", some 7) ∧
      declaration? comment [(1, 0)] 0 = some ("a = 2", some 7) := by
  decide +kernel

end TypedSvelte.Component
