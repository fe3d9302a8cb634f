import TypedSvelte.Component.Transpile
import TypedSvelte.Kit.Augment

/-!
# Transforming files

A file is a component if its name says so; of all others, only special files are transformed.
-/
namespace TypedSvelte

open Component Kit

inductive Transformed where
  | component (result : Transpiled)
  | special (result : Augmented)
  deriving Repr, Inhabited

namespace Transformed

def code : Transformed → String
  | .component result => result.code
  | .special result => result.text

def label : Transformed → String
  | .component _ => "component"
  | .special result => result.kind.label

/-- The generated offset for an offset of the file, if that is part of the generated text. -/
def toGenerated? (file : Transformed) (offset : Nat) : Option Nat :=
  match file with
  | .component result => result.sourceMap.generatedPosition? offset
  | .special result => some (result.ledger.toGenerated offset)

def toOriginal (file : Transformed) (offset : Nat) : OriginalPosition :=
  match file with
  | .component result => result.sourceMap.toOriginal offset
  | .special result => result.ledger.toOriginal offset

end Transformed

/-- Transforms a file, if it needs that. -/
def transformFile (path : FilePath) (source : String) (places : KitPaths) :
    Except Interruption (Option Transformed) :=
  if path.extension? == some "svelte" then
    ((transpile source).mapError .refused).map fun result => some (.component result)
  else (augment path source places).map fun result? => result?.map .special

end TypedSvelte
