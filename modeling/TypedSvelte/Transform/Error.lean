import TypedSvelte.Markup.Error
import TypedSvelte.Position.Ledger
import TypedSvelte.Script.Exports
import TypedSvelte.Script.Parse

/-!
# Why files cannot be transformed

Files that need no transformation are never errors. An error is reported; an interruption that is
none leaves nothing to report.
-/
namespace TypedSvelte

/-- A construct that has no typed form. -/
inductive StructuralFault where
  | refusedExport (fault : Script.ExportFault)
  /-- The name of a slot contains an expression. -/
  | dynamicSlotName
  /-- A slot spreads an object over its properties. -/
  | slotSpread
  deriving DecidableEq, Repr, Inhabited

def StructuralFault.message : StructuralFault → String
  | .refusedExport fault => fault.message
  | .dynamicSlotName => "slot names must be static"
  | .slotSpread => "spread attributes on <slot> are not supported"

inductive TransformError where
  | markup (error : Markup.MarkupError)
  /-- A script cannot be read; where in the file reading failed. -/
  | script (offset : Nat)
  | structural (fault : StructuralFault) (offset : Nat)
  | ledger (error : LedgerError)
  deriving DecidableEq, Repr

namespace TransformError

/-- The wording of the error. What the reader of scripts has to say of a script is left out. -/
def message : TransformError → String
  | .markup error => "markup error: " ++ error.kind.message
  | .script offset => "script error at offset " ++ toString offset
  | .structural fault offset =>
    "unsupported construct at offset " ++ toString offset ++ ": " ++ fault.message
  | .ledger error => error.message

def offset? : TransformError → Option Nat
  | .markup error => some error.span.start
  | .script offset | .structural _ offset | .ledger (.duplicatePosition offset) => some offset

/-- The error of an export that is refused in a script that begins at byte `base` of the file. -/
def ofExport (base : Nat) (error : Script.ExportError) : TransformError :=
  .structural (.refusedExport error.fault) (base + error.offset)

end TransformError

/-- Why there is no answer for a file. -/
inductive Interruption where
  | refused (error : TransformError)
  /-- A text would have to be inserted within a character. The work breaks off there, and with it
  whatever it is a part of. -/
  | brokenCharacter
  deriving DecidableEq, Repr

end TypedSvelte
