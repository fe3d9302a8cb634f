import TypedSvelte.Markup.Header
import TypedSvelte.Markup.Tag

/-!
# Open constructs

A component is read in one pass over its source with a stack of the elements and blocks that are
open. This module holds the state of that pass.
-/
namespace TypedSvelte.Markup

/-- An arm of a condition whose nodes have been read. -/
structure Arm where
  start : Nat
  condition : Expression
  consequent : List Node
  deriving Inhabited

/-- The branches of an `{#await}` block read so far. -/
structure Awaiting where
  start : Nat
  expression : Expression
  pending : List Node
  onThen : Option (Option Expression × List Node)
  onCatch : Option (Option Expression × List Node)
  deriving Inhabited

namespace Awaiting

/-- An `{#await}` block with the nodes of one more branch. -/
def put (a : Awaiting) (branch : AwaitBranch) (binding : Option Expression)
    (nodes : List Node) : Awaiting :=
  match branch with
  | .then_ => { a with onThen := some (binding, nodes) }
  | .catch_ => { a with onCatch := some (binding, nodes) }

/-- The branch has not been read. -/
def lacks (a : Awaiting) : AwaitBranch → Bool
  | .then_ => a.onThen.isNone
  | .catch_ => a.onCatch.isNone

/-- The block that ends at byte `stop`. -/
def node (a : Awaiting) (stop : Nat) : Node :=
  .await ⟨⟨a.start, stop⟩, a.expression, a.onThen.bind (·.1), a.onCatch.bind (·.1)⟩ a.pending
    (a.onThen.map (·.2)) (a.onCatch.map (·.2))

end Awaiting

/-- An element or block whose nodes are being read. -/
inductive Construct where
  | element (start : Nat) (name : String) (attributes : List Attribute)
  /-- The consequent of a condition, after earlier arms, innermost first. -/
  | arm (start : Nat) (condition : Expression) (earlier : List Arm)
  /-- The nodes after `{:else}` of a condition. -/
  | otherwise (arms : List Arm)
  | eachBody (start : Nat) (header : EachHeader)
  | eachFallback (start : Nat) (header : EachHeader) (body : List Node)
  | awaitPending (start : Nat) (expression : Expression)
  | awaitBranch (done : Awaiting) (branch : AwaitBranch) (binding : Option Expression)
  | key (start : Nat) (expression : Expression)
  deriving Inhabited

/-- An open construct with the nodes that stand before it in the same parent, last first. -/
structure Frame where
  construct : Construct
  before : List Node
  deriving Inhabited

/-- What has been read of a component: the open constructs, innermost first, and the nodes of the
innermost one, last first. Scripts and styles are set aside only while nothing is open. -/
structure Reading where
  scan : Scan
  stack : List Frame
  nodes : List Node
  moduleScript : Option Script
  instanceScript : Option Script
  /-- Last first. -/
  styles : List Style
  deriving Inhabited

namespace Reading

def start (source : String) : Reading := ⟨Scan.ofSource source, [], [], none, none, []⟩

def moveTo (r : Reading) (scan : Scan) : Reading := { r with scan := scan }

/-- Adds a node, the reading being at `scan` now. -/
def add (r : Reading) (scan : Scan) (node : Node) : Reading :=
  { r with scan := scan, nodes := node :: r.nodes }

/-- Opens a construct, the reading being at `scan` now. -/
def enter (r : Reading) (scan : Scan) (construct : Construct) : Reading :=
  { r with scan := scan, stack := ⟨construct, r.nodes⟩ :: r.stack, nodes := [] }

end Reading

end TypedSvelte.Markup
