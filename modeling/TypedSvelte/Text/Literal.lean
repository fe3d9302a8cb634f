/-!
# Literals of generated code
-/
namespace TypedSvelte

def quotedChar : Char → List Char
  | '\\' => ['\\', '\\']
  | '"' => ['\\', '"']
  | '\n' => ['\\', 'n']
  | c => [c]

def quoted (text : String) : String :=
  String.ofList ('"' :: text.toList.flatMap quotedChar ++ ['"'])

/-- Text within a template literal: backslashes, backquotes and what would begin a substitution are
escaped. -/
def templateText : List Char → List Char
  | [] => []
  | c :: rest =>
    let escaped := c == '\\' || c == '`' || (c == '$' && rest.head? == some '{')
    if escaped then '\\' :: c :: templateText rest else c :: templateText rest

def isPlainName (name : String) : Bool :=
  match name.toList with
  | [] => false
  | c :: rest =>
    (c.isAlpha || c == '_' || c == '$') && rest.all fun c => c.isAlphanum || c == '_' || c == '$'

/-- The key of an object literal, in quotes unless it is a plain name. -/
def objectKey (name : String) : String := if isPlainName name then name else quoted name

end TypedSvelte
