import TypedSvelte.Markup.Nesting

/-!
# What opens at a place

Texts, comments, mustaches and tags are read whole and become nodes. The opening tag of an element
and the header of a block become an open construct, unless the element is void, closes itself or is
a script or style, whose content is not markup.
-/
namespace TypedSvelte.Markup

namespace Reading

/-- The characters of a text after its first one: up to a brace or to something that is a tag. -/
def textLength : List Char → Nat
  | [] => 0
  | c :: rest =>
    let tag := rest.head?.any (fun d => d.isAlpha || d == '/') || "!--".toList.isPrefixOf rest
    if c == '{' || (c == '<' && tag) then 0 else textLength rest + 1

def readText (r : Reading) : Reading :=
  let n := textLength r.scan.rest.tail + 1
  r.add (r.scan.skip n) (.text (r.scan.rawText n))

def readComment (r : Reading) : Reading :=
  let body := r.scan.skip 4
  match findText? "-->".toList body.rest with
  | some n =>
    let next := body.skip (n + 3)
    r.add next (.comment ⟨⟨r.scan.pos, next.pos⟩, String.ofList (body.rest.take n)⟩)
  | none =>
    let next := body.skipAll.fail (.unexpectedEof "-->") r.scan.pos
    r.add next (.comment ⟨⟨r.scan.pos, next.pos⟩, String.ofList body.rest⟩)

/-- Reads `{expression}`. A blank one is an error and gives no node. -/
def readMustache (r : Reading) : Reading :=
  let read := (r.scan.skip 1).expression r.scan.pos
  match read.1 with
  | none => r.moveTo read.2
  | some e =>
    if e.isEmpty then r.moveTo (read.2.fail .emptyExpression r.scan.pos)
    else r.add read.2 (.mustache ⟨r.scan.pos, read.2.pos⟩ e)

def tagKind? : String → Option TagKind
  | "html" => some .html
  | "debug" => some .debug
  | "const" => some .const
  | _ => none

/-- Reads `{@name expression}`. -/
def readTag (r : Reading) : Reading :=
  let word := (r.scan.skip 2).word
  let read := word.2.expression r.scan.pos
  match read.1, tagKind? word.1 with
  | none, _ => r.moveTo read.2
  | some _, none => r.moveTo (read.2.fail (.unknownTag word.1) r.scan.pos)
  | some e, some kind =>
    r.add read.2 (.tag ⟨r.scan.pos, read.2.pos⟩ kind (if e.isEmpty then none else some e))

/-- Sets a top-level script aside, unless there is one of its context already. -/
def addScript (r : Reading) (script : Script) : Reading :=
  match script.context with
  | .perModule =>
    if r.moduleScript.isSome then
      r.moveTo (r.scan.fail (.duplicateScript "module") script.span.start)
    else { r with moduleScript := some script }
  | .perInstance =>
    if r.instanceScript.isSome then
      r.moveTo (r.scan.fail (.duplicateScript "instance") script.span.start)
    else { r with instanceScript := some script }

/-- Reads the content of a script or style, whose opening tag began at byte `start` and has been
passed. Within other constructs it is an element like any other, with its content as text. -/
def readRaw (r : Reading) (start : Nat) (name : String) (attributes : List Attribute) : Reading :=
  let opened := r.scan
  let length? := findText? ("</" ++ name).toList opened.rest
  let closing := opened.skip (length?.getD opened.rest.length)
  let last :=
    match length? with
    | some _ => closing.skipPast '>'
    | none => closing.fail (.unclosedTag name) start
  let span : Span := ⟨start, last.pos⟩
  let content : Span := ⟨opened.pos, closing.pos⟩
  let next := r.moveTo last
  if !r.stack.isEmpty then
    let text := String.ofList (opened.rest.take (length?.getD opened.rest.length))
    next.add last (.element ⟨span, name, .html, attributes, false⟩ [.text ⟨content, text⟩])
  else if name == "style" then { next with styles := ⟨span, content⟩ :: next.styles }
  else
    next.addScript
      { span, openTag := ⟨start, opened.pos⟩, closeTag := ⟨closing.pos, last.pos⟩
        contentSpan := content, lang := ScriptLang.ofAttributes attributes
        context := ScriptContext.ofAttributes attributes, attributes }

def voidElements : List String :=
  ["area", "base", "br", "col", "embed", "hr", "img", "input", "link", "meta", "param", "source",
    "track", "wbr"]

def isVoid (name : String) : Bool := voidElements.contains name.toLower

/-- The end of an opening tag: whether it closes itself, and the place after it. A tag that the
source ends counts as closing itself. -/
def tagEnd (s : Scan) (name : String) (start : Nat) : Bool × Scan :=
  if s.startsWith "/>" then (true, s.skip 2)
  else if s.startsWith ">" then (false, s.skip 1)
  else (true, s.fail (.unclosedTag name) start)

def readElement (r : Reading) : Reading :=
  let start := r.scan.pos
  let named := r.scan.skip 1
  let n := named.count fun c => !(isBlank c || c == '/' || c == '>')
  let name := String.ofList (named.rest.take n)
  let attributes := (named.skip n).attributes
  let ended := tagEnd attributes.2 name start
  if !ended.1 && (name == "script" || name == "style") then
    (r.moveTo ended.2).readRaw start name attributes.1
  else if ended.1 || isVoid name then
    let head : ElementHead :=
      ⟨⟨start, ended.2.pos⟩, name, ElementKind.ofName name, attributes.1, ended.1⟩
    r.add ended.2 (.element head [])
  else r.enter ended.2 (.element start name attributes.1)

def blockConstruct? (start : Nat) (word : String) (header : Expression) : Option Construct :=
  match word with
  | "if" => some (.arm start header [])
  | "each" => some (.eachBody start (EachHeader.split header))
  | "await" =>
    let split := AwaitHeader.split header
    match split.branch with
    | some (branch, binding) =>
      some (.awaitBranch ⟨start, split.expression, [], none, none⟩ branch binding)
    | none => some (.awaitPending start split.expression)
  | "key" => some (.key start header)
  | _ => none

/-- Reads the opening `{#word header}` of a block. -/
def readBlock (r : Reading) : Reading :=
  let start := r.scan.pos
  let word := (r.scan.skip 2).word
  let read := word.2.expression start
  match read.1 with
  | none => r.moveTo read.2
  | some header =>
    match blockConstruct? start word.1 header with
    | some construct => r.enter read.2 construct
    | none => r.moveTo (read.2.fail (.unknownBlock word.1) start)

/-- Reads what opens at this place, which is neither the end nor a closing tag. -/
def open_ (r : Reading) : Reading :=
  if r.scan.startsWith "<!--" then r.readComment
  else if r.scan.atTag then r.readElement
  else if r.scan.startsWith "\x7b#" then r.readBlock
  else if r.scan.startsWith "\x7b@" then r.readTag
  else if r.scan.startsWith "\x7b" then r.readMustache
  else r.readText

end Reading

end TypedSvelte.Markup
