import TypedSvelte.Position.Span

/-!
# Markup errors

Reading markup always gives a document; what was wrong is recorded beside it.
-/
namespace TypedSvelte.Markup

/-- What is wrong at a place of the markup. -/
inductive ErrorKind where
  | unexpectedEof (expected : String)
  | unclosedTag (name : String)
  | mismatchedClosingTag (expected found : String)
  | unexpectedClosingTag (name : String)
  | unclosedBlock (block : String)
  | unknownBlock (block : String)
  | unexpectedBlockClose (block : String)
  | unexpectedContinuation (word : String)
  /-- A mustache without an expression. -/
  | emptyExpression
  /-- A tag such as `{@name}` that does not exist. -/
  | unknownTag (name : String)
  /-- An `{:else}` followed by something other than a condition. -/
  | expectedElseIf (found : String)
  /-- A second top-level script of one context. -/
  | duplicateScript (context : String)
  deriving DecidableEq, Repr, Inhabited

def ErrorKind.message : ErrorKind → String
  | .unexpectedEof expected => "unexpected end of file: expected " ++ expected
  | .unclosedTag name => "unclosed tag: <" ++ name ++ ">"
  | .mismatchedClosingTag expected found =>
    "mismatched closing tag: expected </" ++ expected ++ ">, found </" ++ found ++ ">"
  | .unexpectedClosingTag name => "unexpected closing tag: </" ++ name ++ ">"
  | .unclosedBlock block => "unclosed block: \x7b#" ++ block ++ "\x7d"
  | .unknownBlock block => "unknown block: \x7b#" ++ block ++ "\x7d"
  | .unexpectedBlockClose block => "unexpected \x7b/" ++ block ++ "\x7d without an open block"
  | .unexpectedContinuation word => "unexpected \x7b:" ++ word ++ "\x7d outside of a block"
  | .emptyExpression => "invalid expression: empty expression"
  | .unknownTag name => "invalid expression: unknown tag @" ++ name
  | .expectedElseIf found =>
    "invalid expression: expected `if` after else, found `" ++ found ++ "`"
  | .duplicateScript context => "duplicate " ++ context ++ " script"

/-- An error and the place where it was noticed. -/
structure MarkupError where
  kind : ErrorKind
  span : Span
  deriving DecidableEq, Repr, Inhabited

end TypedSvelte.Markup
