import TypedSvelte.Position.Span
import TypedSvelte.Text.Blank

/-!
# Types in documentation comments

Where type syntax is not allowed, a documentation comment directly before a statement can give types
by its tags.
-/
namespace TypedSvelte.Script

/-- The tags of a documentation comment: the letters after each at sign. -/
def docTags : List Char → List String
  | [] => []
  | c :: rest =>
    if c == '@' then String.ofList (rest.takeWhile Char.isAlpha) :: docTags rest
    else docTags rest

def typeTags : List String := ["type", "param", "returns", "return", "satisfies"]

/-- What stands between the last opening of a documentation comment and the closing of a comment
that ends the text, white space aside. -/
def lastDocComment? (text : List Char) : Option (List Char) := do
  match (trimEnd text).reverse with
  | '/' :: '*' :: body =>
    let length ← findText? ['*', '*', '/'] body
    some (body.take length).reverse
  | _ => none

/-- A documentation comment with a tag that gives a type ends directly before byte `start`. -/
def hasDocType (source : String) (start : Nat) : Bool :=
  match lastDocComment? ((slice? source 0 start).getD "").toList with
  | some body => (docTags body).any typeTags.contains
  | none => false

end TypedSvelte.Script
