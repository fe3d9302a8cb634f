import TypedSvelte.Command.Options
import TypedSvelte.Position.LineIndex
import TypedSvelte.Text.Json
import TypedSvelte.Transform.File
import TypedSvelte.Workspace.Tree

/-!
# Reports

What a run tells of files and positions, for human readers and as JSON. Lines and columns count from
one here.
-/
namespace TypedSvelte.Command

structure Place where
  line : Nat
  column : Nat
  offset : Nat
  deriving DecidableEq, Repr, Inhabited

namespace Place

/-- The place of an offset of a text. An offset past the end counts as its beginning. -/
def ofOffset (text : String) (offset : Nat) : Place :=
  let position := ((LineIndex.ofText text).position? offset).getD ⟨0, 0⟩
  ⟨position.line + 1, position.column + 1, offset⟩

def text (place : Place) : String := toString place.line ++ ":" ++ toString place.column

def json (place : Place) : JsonValue :=
  .object [("line", .number place.line), ("column", .number place.column),
    ("offset", .number place.offset)]

end Place

/-- Why there is no generated code for a file that should have some. -/
inductive Failure where
  | unreadable (fault : FileFault)
  | refused (error : TransformError) (place : Option Place)
  deriving DecidableEq, Repr

namespace Failure

def message : Failure → String
  | .unreadable fault => "failed to read file: " ++ fault.message
  | .refused error _ => error.message

def place? : Failure → Option Place
  | .unreadable _ => none
  | .refused _ place => place

end Failure

inductive FileOutcome where
  | transformed (file : Transformed)
  /-- The file needs no generated code. -/
  | skipped
  | failed (failure : Failure)
  deriving Repr

/-- What became of the file at a path, as seen from the project. -/
structure FileReport where
  path : FilePath
  outcome : FileOutcome
  deriving Repr

namespace FileReport

def code? (report : FileReport) : Option String :=
  match report.outcome with
  | .transformed file => some file.code
  | _ => none

end FileReport

def counted (count : Nat) (one many : String) : String :=
  toString count ++ " " ++ if count = 1 then one else many

/-- How many files were transformed, needed nothing or failed. -/
structure Summary where
  transformed : Nat
  skipped : Nat
  failed : Nat
  deriving DecidableEq, Repr, Inhabited

namespace Summary

def zero : Summary := ⟨0, 0, 0⟩

def count (report : FileReport) (summary : Summary) : Summary :=
  match report.outcome with
  | .transformed _ => { summary with transformed := summary.transformed + 1 }
  | .skipped => { summary with skipped := summary.skipped + 1 }
  | .failed _ => { summary with failed := summary.failed + 1 }

def ofReports (reports : List FileReport) : Summary := reports.foldr count zero

def text (summary : Summary) : String :=
  "====================================\nsvelte-shim transformed "
    ++ counted summary.transformed "file" "files" ++ ", skipped " ++ toString summary.skipped
    ++ ", " ++ toString summary.failed ++ " failed\n"

end Summary

namespace FileReport

def extent : Transformed → String
  | .component result => counted result.sourceMap.mappings.length "mapping" "mappings"
  | .special result => counted result.ledger.size "insertion" "insertions"

def text (report : FileReport) : String :=
  match report.outcome with
  | .transformed file => report.path.text ++ " [" ++ file.label ++ "] " ++ extent file ++ "\n"
  | .skipped => ""
  | .failed failure =>
    report.path.text ++ (failure.place?.elim "" (":" ++ ·.text)) ++ "\nError: "
      ++ failure.message ++ "\n"

def insertionJson (insertion : Insertion) : JsonValue :=
  .object [("original_pos", .number insertion.position),
    ("generated_pos", .number insertion.generated), ("length", .number insertion.length),
    ("text", .text insertion.text), ("total", .number insertion.total)]

def extentFields : Transformed → List (String × JsonValue)
  | .component result => [("mappings", .number result.sourceMap.mappings.length)]
  | .special result =>
    if result.ledger.isEmpty then []
    else [("insertions", .array (result.ledger.insertions.map insertionJson))]

def json (report : FileReport) : JsonValue :=
  let path : String × JsonValue := ("path", .text report.path.text)
  match report.outcome with
  | .transformed file =>
    .object (path :: ("status", .text "transformed") :: ("kind", .text file.label)
      :: extentFields file)
  | .skipped => .object [path, ("status", .text "skipped")]
  | .failed failure =>
    .object (path :: ("status", .text "failed") :: ("error", .text failure.message)
      :: (failure.place?.map fun place => ("location", place.json)).toList)

end FileReport

def reportText (format : OutputFormat) (reports : List FileReport) : String :=
  match format with
  | .human => "".intercalate (reports.map FileReport.text) ++ (Summary.ofReports reports).text
  | .json => (JsonValue.array (reports.map FileReport.json)).pretty

structure Correspondence where
  file : FilePath
  source : Place
  /-- The corresponding place; none if the text is not in the generated code. -/
  target : Option Place
  /-- The position lies in generated text that stands for nothing in the file. -/
  inGenerated : Bool
  deriving DecidableEq, Repr, Inhabited

namespace Correspondence

def text (answer : Correspondence) : String :=
  answer.file.text ++ ":" ++ answer.source.text ++ " -> " ++
    match answer.target with
    | some place =>
      place.text ++ " (offset " ++ toString place.offset ++ ")"
        ++ if answer.inGenerated then ", inside generated text" else ""
    | none => "not present in generated code"

def json (answer : Correspondence) : JsonValue :=
  .object [("file", .text answer.file.text), ("from", answer.source.json),
    ("to", answer.target.elim .null Place.json), ("in_generated", .bool answer.inGenerated)]

def render (format : OutputFormat) (answer : Correspondence) : String :=
  (match format with
    | .human => answer.text
    | .json => answer.json.pretty) ++ "\n"

end Correspondence

end TypedSvelte.Command
