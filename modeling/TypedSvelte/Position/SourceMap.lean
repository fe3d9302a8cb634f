import TypedSvelte.Position.Span
import TypedSvelte.Position.Translation

/-!
# Source maps

A generated text is drafted piece by piece: verbatim copies of source spans, replacements of source
spans, and synthetic text. Copies and replacements are recorded as mappings in the order of the
generated text; a finished draft answers position queries through them.
-/
namespace TypedSvelte

/-- A generated span and the source span it stands for. -/
structure Mapping where
  generated : Span
  original : Span
  deriving DecidableEq, Repr, Inhabited

/-- Both spans have the same length, so that offsets correspond one to one. -/
def Mapping.isVerbatim (m : Mapping) : Bool := m.generated.size == m.original.size

/-- Mappings in increasing order of their generated spans. -/
structure SourceMap where
  mappings : List Mapping
  deriving DecidableEq, Repr, Inhabited

namespace SourceMap

/-- The mapping whose generated span contains the offset: the last one that starts at or before
it, if it reaches beyond it. -/
def covering? (map : SourceMap) (generated : Nat) : Option Mapping :=
  (map.mappings.takeWhile (·.generated.start ≤ generated)).getLast?.filter
    (·.generated.contains generated)

/-- The source offset for a generated offset that a mapping covers. Offsets in a replacement are
clamped to the source span. -/
def originalPosition? (map : SourceMap) (generated : Nat) : Option Nat :=
  (map.covering? generated).map fun m =>
    m.original.start + min (generated - m.generated.start) m.original.size

/-- The generated offset for a source offset: in the first verbatim copy of it, else at the start
of the first replacement of it. -/
def generatedPosition? (map : SourceMap) (original : Nat) : Option Nat :=
  let holding := map.mappings.filter (·.original.contains original)
  match holding.find? (·.isVerbatim) with
  | some m => some (m.generated.start + (original - m.original.start))
  | none => holding.head?.map (·.generated.start)

/-- Where a generated offset comes from. Synthetic text is anchored where the mapped text before it
ended. -/
def toOriginal (map : SourceMap) (generated : Nat) : OriginalPosition :=
  match map.covering? generated with
  | some m =>
    if m.isVerbatim then .exactly (m.original.start + (generated - m.generated.start))
    else .anchored m.original.start
  | none =>
    .anchored <| ((map.mappings.takeWhile (·.generated.stop ≤ generated)).getLast?.map
      (·.original.stop)).getD 0

end SourceMap

/-- A generated text under construction from `source`. -/
structure Draft where
  source : String
  code : String
  mappings : Array Mapping
  deriving Repr, Inhabited

namespace Draft

/-- The empty draft of a text generated from `source`. -/
def start (source : String) : Draft := ⟨source, "", #[]⟩

def size (d : Draft) : Nat := d.code.utf8ByteSize

def push (d : Draft) (text : String) : Draft := { d with code := d.code ++ text }

/-- Appends `text` in place of the source span `original`. Empty text leaves no mapping. -/
def replace (d : Draft) (original : Span) (text : String) : Draft :=
  if text.isEmpty then d
  else
    { d with
      code := d.code ++ text
      mappings := d.mappings.push ⟨⟨d.size, d.size + text.utf8ByteSize⟩, original⟩ }

def copy (d : Draft) (original : Span) : Draft := d.replace original (original.text d.source)

def sourceMap (d : Draft) : SourceMap := ⟨d.mappings.toList⟩

end Draft

end TypedSvelte
