import TypedSvelte.Kit.Rule
import TypedSvelte.Transform.Error

/-!
# Typing special files

The exports of a special file that have no type of their own are given the known one by insertions
into the source. A local name that is exported several times is typed once.
-/
namespace TypedSvelte.Kit

open Script

structure Augmented where
  kind : FileKind
  text : String
  ledger : Ledger
  deriving Repr, Inhabited

def followsParen (source : String) (offset : Nat) : Bool :=
  offset != 0 && slice? source (offset - 1) offset == some ")"

/-- Where the type of a parameter is inserted: after its target if it has a default, and otherwise
after it, but before a parenthesis at its end. -/
def paramEnd (source : String) : Pattern → Nat
  | .withDefault _ target => target.span.stop
  | p => if followsParen source p.span.stop then p.span.stop - 1 else p.span.stop

/-- Types the only parameter and the result of a function. A generator's result is left alone, and a
function with another number of parameters is left alone altogether. -/
def annotateFunction (source : String) (f : FunctionExport) (param result : String)
    (ledger : Ledger) : Except LedgerError Ledger :=
  match f.shape.params with
  | [p] =>
    let stop := paramEnd source p
    let typed := ": " ++ param
    let result? :=
      if f.shape.isGenerator then none else some (resultType result f.shape.isAsync)
    if f.bareParam then do
      let opened ← ledger.insert p.span.start "("
      opened.insert stop (typed ++ ")" ++ (result?.map (": " ++ ·)).getD "")
    else do
      let withParam ← ledger.insert stop typed
      match result?, f.paramsClose with
      | none, _ => .ok withParam
      | some type, some close => withParam.insert (close + 1) (": " ++ type)
      | some type, none => withParam.insert f.shape.bodyStart (": " ++ type ++ " ")
  | _ => .ok ledger

/-- Types an export, if it is what the type is for. A variable must have a value, and a name
rather than a pattern. -/
def annotate (source : String) (typing : Typing) (shape : ExportShape)
    (ledger : Ledger) : Except LedgerError Ledger :=
  match typing, shape with
  | .function param result, .function f => annotateFunction source f param result ledger
  | .variable type, .variable (some d) =>
    match d.initial, d.place? with
    | some _, some place => ledger.insert place.stop (": " ++ type)
    | _, _ => .ok ledger
  | _, _ => .ok ledger

/-- The insertions so far, and the local names that they type. -/
structure Progress where
  ledger : Ledger
  annotated : List String
  deriving Repr, Inhabited

def applyRule (source : String) (exports : Exports) (progress : Progress) (rule : Rule) :
    Except LedgerError Progress :=
  match exports.entries.get? rule.name with
  | none => .ok progress
  | some entry =>
    if entry.hasExplicitType || progress.annotated.contains entry.localName then .ok progress
    else do
      let ledger ← annotate source rule.typing entry.shape progress.ledger
      if ledger.size > progress.ledger.size then
        .ok ⟨ledger, entry.localName :: progress.annotated⟩
      else .ok { progress with ledger }

def insertions (kind : FileKind) (source : String) (exports : Exports) :
    Except LedgerError Ledger :=
  (kind.rules.foldlM (applyRule source exports) ⟨.empty, []⟩).map Progress.ledger

/-- Types a special file. There is nothing to do for other files, for files that cannot be read and
for files whose exports all have types. -/
def augment (path : FilePath) (source : String) (places : KitPaths) :
    Except Interruption (Option Augmented) :=
  match classify? path places with
  | none => .ok none
  | some kind =>
    let typed := path.extension? == some "ts"
    match Script.parse typed source with
    | .error _ => .ok none
    | .ok outline => do
      let exports ← ((Subject.mk outline source typed).exports .standalone).mapError
        (.refused ∘ TransformError.ofExport 0)
      let ledger ← (insertions kind source exports).mapError (.refused ∘ .ledger)
      if ledger.isEmpty then return none
      match ledger.assemble? source with
      | some text => return some { kind, text, ledger }
      | none => throw .brokenCharacter

end TypedSvelte.Kit
