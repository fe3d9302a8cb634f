import TypedSvelte.Proofs.Markup.Placement

/-!
# Spans side by side

A source that is read without an error leaves nothing out: the spans of what stands at the top cover
it from end to end (`Tiles`), and in every list of nodes each node begins where the one before it ends
(`Node.Joined`).
-/
namespace TypedSvelte

/-- The spans cover the range between two offsets, each one beginning where the one before it ends. -/
def Tiles : Nat → List Span → Nat → Prop
  | low, [], high => low = high
  | low, s :: rest, high => s.start = low ∧ s.start ≤ s.stop ∧ Tiles s.stop rest high

instance decidableTiles : (low : Nat) → (spans : List Span) → (high : Nat) →
    Decidable (Tiles low spans high)
  | low, [], high => inferInstanceAs (Decidable (low = high))
  | low, s :: rest, high =>
    have := decidableTiles s.stop rest high
    inferInstanceAs (Decidable (s.start = low ∧ s.start ≤ s.stop ∧ Tiles s.stop rest high))

theorem Tiles.snoc {low high : Nat} {spans : List Span} {s : Span} (tiles : Tiles low spans high)
    (starts : s.start = high) (ordered : s.start ≤ s.stop) : Tiles low (spans ++ [s]) s.stop := by
  induction spans generalizing low with
  | nil =>
    rw [Tiles] at tiles
    exact ⟨starts.trans tiles.symm, ordered, rfl⟩
  | cons first rest ih =>
    obtain ⟨firstStarts, firstOrdered, later⟩ := tiles
    exact ⟨firstStarts, firstOrdered, ih later⟩

/-- A span may be empty, and is then still in its place. -/
example : Tiles 0 ([⟨0, 2⟩, ⟨2, 2⟩] ++ [⟨2, 5⟩]) 5 := by decide

private theorem Tiles.stop_le {low high : Nat} {spans : List Span} (tiles : Tiles low spans high) {s : Span}
    (member : s ∈ spans) : low ≤ s.start ∧ s.stop ≤ high := by
  have covers (spans : List Span) (low : Nat) (tiles : Tiles low spans high) : low ≤ high := by
    induction spans generalizing low with
    | nil => exact Nat.le_of_eq tiles
    | cons first rest ih =>
      obtain ⟨starts, ordered, later⟩ := tiles
      exact starts ▸ Nat.le_trans ordered (ih _ later)
  induction spans generalizing low with
  | nil => cases member
  | cons first rest ih =>
    obtain ⟨starts, ordered, later⟩ := tiles
    rcases List.mem_cons.1 member with rfl | inRest
    · exact ⟨Nat.le_of_eq starts.symm, covers _ _ later⟩
    · obtain ⟨behind, before⟩ := ih later inRest
      exact ⟨by omega, before⟩

/-- Spans that cover a range and are not empty stand in the order of their starts. -/
theorem Tiles.increasing {low high : Nat} {spans : List Span} (tiles : Tiles low spans high)
    (filled : ∀ s ∈ spans, s.start < s.stop) : spans.Pairwise (·.start < ·.start) := by
  induction spans generalizing low with
  | nil => exact .nil
  | cons first rest ih =>
    obtain ⟨starts, _, later⟩ := tiles
    refine List.pairwise_cons.2 ⟨fun s member => ?_, ih later fun s member => filled s (.tail _ member)⟩
    exact Nat.lt_of_lt_of_le (filled first (.head _)) (later.stop_le member).1

namespace Markup

def Node.span : Node → Span
  | .element head _ => head.span
  | .text t | .comment t => t.span
  | .mustache span _ | .tag span _ _ | .ifBlock span _ _ _ | .key span _ _ => span
  | .each head _ _ => head.span
  | .await head _ _ _ => head.span

def Row (nodes : List Node) : Prop := ∃ low high, Tiles low (nodes.map Node.span) high

mutual

/-- At any depth of the node, each child begins where the one before it ends. -/
inductive Node.Joined : Node → Prop
  | element {head : ElementHead} {nodes : List Node} (row : Row nodes)
      (children : ∀ node ∈ nodes, Node.Joined node) : Node.Joined (.element head nodes)
  | text {t : RawText} : Node.Joined (.text t)
  | comment {c : RawText} : Node.Joined (.comment c)
  | mustache {s : Span} {e : Expression} : Node.Joined (.mustache s e)
  | tag {s : Span} {kind : TagKind} {e? : Option Expression} : Node.Joined (.tag s kind e?)
  | ifBlock {s : Span} {e : Expression} {nodes : List Node} {rest : Alternate} (row : Row nodes)
      (consequent : ∀ node ∈ nodes, Node.Joined node) (alternate : Alternate.Joined rest) :
      Node.Joined (.ifBlock s e nodes rest)
  | each {head : EachHead} {nodes : List Node} {others : Option (List Node)} (row : Row nodes)
      (body : ∀ node ∈ nodes, Node.Joined node) (rows : ∀ branch ∈ others, Row branch)
      (fallback : ∀ branch ∈ others, ∀ node ∈ branch, Node.Joined node) :
      Node.Joined (.each head nodes others)
  | await {head : AwaitHead} {nodes : List Node} {thens catches : Option (List Node)}
      (row : Row nodes) (pending : ∀ node ∈ nodes, Node.Joined node)
      (thenRow : ∀ branch ∈ thens, Row branch)
      (onThen : ∀ branch ∈ thens, ∀ node ∈ branch, Node.Joined node)
      (catchRow : ∀ branch ∈ catches, Row branch)
      (onCatch : ∀ branch ∈ catches, ∀ node ∈ branch, Node.Joined node) :
      Node.Joined (.await head nodes thens catches)
  | key {s : Span} {e : Expression} {nodes : List Node} (row : Row nodes)
      (body : ∀ node ∈ nodes, Node.Joined node) : Node.Joined (.key s e nodes)

/-- The same of what follows the consequent of a condition. -/
inductive Alternate.Joined : Alternate → Prop
  | absent : Alternate.Joined .absent
  | otherwise {nodes : List Node} (row : Row nodes) (branch : ∀ node ∈ nodes, Node.Joined node) :
      Alternate.Joined (.otherwise nodes)
  | elseIf {s : Span} {e : Expression} {nodes : List Node} {rest : Alternate} (row : Row nodes)
      (consequent : ∀ node ∈ nodes, Node.Joined node) (alternate : Alternate.Joined rest) :
      Alternate.Joined (.elseIf s e nodes rest)

end

/-- The nodes stand in a row, and so do those within them at any depth. -/
def Strung (nodes : List Node) : Prop := Row nodes ∧ ∀ node ∈ nodes, node.Joined

theorem strung_nil : Strung [] := ⟨⟨0, 0, rfl⟩, nofun⟩

def Script.Tiled (script : Script) : Prop :=
  Tiles script.span.start [script.openTag, script.contentSpan, script.closeTag] script.span.stop

/-- The spans of all that stands at the top of a component, in the order of their starts. -/
def Document.regions (d : Document) : List Span :=
  (d.scripts.map (·.span) ++ d.styles.map (·.span) ++ d.fragment.map Node.span).mergeSort
    fun a b => a.start ≤ b.start

end Markup

end TypedSvelte
