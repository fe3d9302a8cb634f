import TypedSvelte.Position.SourceMap

/-!
# Pieces of generated text

What is generated from a source can be listed before it is drafted: text of its own, copies of
source spans, and replacements of source spans.
-/
namespace TypedSvelte

inductive Piece where
  | fresh (text : String)
  | copied (original : Span)
  | replaced (original : Span) (text : String)
  deriving DecidableEq, Repr, Inhabited

def Draft.add (d : Draft) : Piece → Draft
  | .fresh text => d.push text
  | .copied original => d.copy original
  | .replaced original text => d.replace original text

/-- The draft of a text generated from `source` in pieces. -/
def Draft.ofPieces (source : String) (pieces : List Piece) : Draft :=
  pieces.foldl Draft.add (.start source)

theorem Draft.ofPieces_append (source : String) (first second : List Piece) :
    Draft.ofPieces source (first ++ second) =
      second.foldl Draft.add (Draft.ofPieces source first) :=
  List.foldl_append

end TypedSvelte
