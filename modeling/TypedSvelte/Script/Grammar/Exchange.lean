import TypedSvelte.Script.Grammar.Flow

/-!
# Imports, exports and items
-/
namespace TypedSvelte.Script.Grammar

variable (g : Grammar)

def importAttributes : Reader Unit := do
  let t ← token
  if t.isWordOf ["with", "assert"] && !t.afterBreak then
    advance
    discard <| objectLiteral g

def moduleName : Reader Unit := do
  match (← token).kind with
  | .string _ => advance
  | _ => fail

def fromModule : Reader Unit := do
  expectWord "from"
  moduleName
  importAttributes g
  endStatement

structure ClauseName where
  place : Span
  name : ExportName
  deriving Repr, Inhabited

/-- A name in a clause: a word or a string. -/
def clauseName : Reader ClauseName := do
  let t ← token
  let place : Span := ⟨t.start, t.stop⟩
  match t.kind with
  | .word name _ =>
    advance
    identify
    return ⟨place, .ident name⟩
  | .string _ =>
    advance
    return ⟨place, .string place⟩
  | _ => fail

def ClauseName.word? (n : ClauseName) : Option String :=
  match n.name with
  | .ident name => some name
  | .string _ => none

def atClauseWord : Reader Bool := return (← token).word?.isSome

/-- A part of a clause: a name of the module, another name for it, and whether it stands for types
alone. -/
structure ClausePart where
  source : ClauseName
  renamed : Option ClauseName
  isTypeOnly : Bool
  deriving Repr, Inhabited

/-- The rest of a part of a clause that begins with the words `type as`. `target` reads the other
name. -/
def typeAsPart (type as : ClauseName) (target : Reader ClauseName) : Reader ClausePart := do
  if !(← atClauseWord) then return ⟨as, none, true⟩
  let second ← target
  if second.word? == some "as" && (← atClauseWord) then
    return ⟨as, some (← target), true⟩
  return ⟨type, some second, false⟩

/-- A part of a clause. The word `type` in front of a name makes it one of types alone, for which
there is no need in a clause of types alone. -/
def clausePart (isTypeClause : Bool) (target : Reader ClauseName) : Reader ClausePart := do
  let first ← clauseName
  let part ← do
    if (← isTyped) && first.word? == some "type" && (← atClauseWord) then
      let second ← clauseName
      if second.word? == some "as" then
        let part ← typeAsPart first second target
        noteIf (isTypeClause && part.isTypeOnly) first.place.start
        return part
      noteIf isTypeClause first.place.start
      pure ⟨second, none, true⟩
    else pure ⟨first, none, false⟩
  if ← eatWord "as" then return { part with renamed := some (← target) }
  return part

def importedName : Reader ClauseName := do
  let (place, name) ← declaredName
  return ⟨place, .ident name⟩

/-- A name that is imported; the local name, which is a word. -/
def importSpecifier (isTypeClause : Bool) : Reader String := do
  let part ← clausePart isTypeClause importedName
  let localName := part.renamed.getD part.source
  match localName.word? with
  | some name => return name
  | none => throw localName.place.start

def phaseWords : List String := ["defer", "source"]

structure ImportHead where
  /-- The default import. -/
  name : Option String
  isTypeOnly : Bool
  /-- The word that tells when the import comes. -/
  phase : Option String
  deriving DecidableEq, Repr, Inhabited

/-- The name after the word `type` that makes an import one of types alone, unless the word is the
name itself. -/
def typeOnlyName? : Reader (Option String) := do
  let next ← peek
  unless (← token).isIdent do return none
  if !(← atWord "from") || next.isWord "from" then return some (← declaredName).2
  if next.isPunct "=" then return some (← anyIdentifier)
  return none

def importHead : Reader ImportHead := do
  let (_, first) ← declaredName
  let opens := (← token).isPunctOf ["\x7b", "*"]
  if (← isTyped) && first == "type" then
    if opens then return ⟨none, true, none⟩
    match ← typeOnlyName? with
    | some name => return ⟨some name, true, none⟩
    | none => return ⟨some first, false, none⟩
  if phaseWords.contains first then
    if opens then return ⟨none, false, some first⟩
    let next ← token
    if (next.isIdent && !next.isWord "from") || (← peek).isWord "from" then
      return ⟨some (← declaredName).2, false, some first⟩
  return ⟨some first, false, none⟩

def importedNames (head : ImportHead) : Reader (List String) := do
  if head.phase != some "source" then
    if ← eat "*" then
      expectWord "as"
      return [(← declaredName).2]
  if head.phase.isNone then
    if ← eat "\x7b" then return ← commaList "\x7d" (importSpecifier head.isTypeOnly)
  return []

/-- An import that gives another name to a namespace or a module, from its equals sign on. -/
def importAlias : Reader ItemKind := do
  expect "="
  if (← atWord "require") && (← peek).isPunct "(" then
    advance
    advance
    moduleName
    expect ")"
  else entityName false
  endStatement
  return .other

def importItem : Reader ItemKind := do
  expectWord "import"
  if let .string _ := (← token).kind then
    moduleName
    importAttributes g
    discard semicolon
    return .imports []
  let head ← if (← token).isIdent then importHead else pure ⟨none, false, none⟩
  if head.name.isSome then
    if (← isTyped) && (← atPunct "=") then return ← importAlias
    unless ← atWord "from" do expect ","
  let others ← importedNames head
  fromModule g
  return .imports (head.name.toList ++ others)

def unexportedWords : List String := ["enum", "package"]

/-- Notes what is wrong with a part of a clause that names no module. -/
def checkExported (part : ClausePart) : Reader Unit :=
  let bad := match part.source.word? with
    | some name => reservedWords.contains name || unexportedWords.contains name
    | none => true
  noteIf bad part.source.place.start

def ClausePart.specifier (part : ClausePart) : ExportSpecifier :=
  .named part.source.name (part.renamed.map (·.name)) part.isTypeOnly

def exportClause (isTypeOnly : Bool) : Reader ItemKind := do
  expect "\x7b"
  let parts ← commaList "\x7d" (clausePart isTypeOnly clauseName)
  let specifiers := parts.map (·.specifier)
  if ← atWord "from" then
    fromModule g
    return .exportClause isTypeOnly true specifiers
  parts.forM checkExported
  discard semicolon
  return .exportClause isTypeOnly false specifiers

def exportAll (isTypeOnly : Bool) : Reader ItemKind := do
  expect "*"
  if ← eatWord "as" then
    discard clauseName
    fromModule g
    return .exportClause isTypeOnly true [.everything]
  fromModule g
  return .exportAll

/-- A default export, from the word `default` on. -/
def exportDefault : Reader ItemKind := do
  expectWord "default"
  let t ← token
  let next ← peek
  let typed ← isTyped
  if typed && t.isWord "abstract" && next.isWord "class" && !next.afterBreak then
    advance
    return .exportDefault (← classFrom g false true) none
  let isMarked := typed && t.isWord "abstract" && next.isWord "interface"
  if isMarked then
    note t.start
    advance
  if ← eatTypedWord "interface" then
    discard <| interfaceTail g
    return .exportDefault none none
  else if ← atWord "class" then
    return .exportDefault (← classFrom g false false) none
  else if ← atAsyncFunction then
    advance
    return .exportDefault (← functionFrom g t.start true false).1 none
  else if ← atWord "function" then
    return .exportDefault (← functionFrom g t.start false false).1 none
  else
    let e ← g.parse .assignment
    endStatement
    return .exportDefault none (some e.value)

/-- An export that only type syntax has, if one is next. -/
def typedExport? : Reader (Option ItemKind) := do
  unless ← isTyped do return none
  if ← eatWord "import" then
    if (← atWord "type") && (← peek).isIdent then advance
    discard anyIdentifier
    return some (← importAlias)
  else if ← eat "=" then
    discard <| g.parse .expression
    endStatement
    return some .other
  else if ← eatWord "as" then
    expectWord "namespace"
    discard identifier
    endStatement
    return some .other
  else return none

/-- An exported declaration of type syntax, if one is next. What is wrong with one that does not
exist elsewhere is not noted. -/
def typedExportDeclaration? : Reader (Option Declaration) := do
  unless ← isTyped do return none
  let start ← here
  if ← eatWord "declare" then
    if let some declaration ← ambientDeclaration? g start then return some declaration
  match ← trial (wordedDeclaration? g) with
  | some found => return found
  | none => return none

/-- An exported declaration of a function, a class or variables, if one is next. -/
def exportedDeclaration? : Reader (Option Declaration) := do
  let t ← token
  if t.isWord "class" then return some (← classDeclaration g false)
  else if t.isWord "function" || (← atAsyncFunction) then
    return some (← functionDeclaration g t.start)
  else if ← atConstantEnum then return some (← constantEnum g)
  else if ← atVariables then return some (← variableDeclaration g)
  else return none

def exportItem : Reader ItemKind := do
  expectWord "export"
  let start ← here
  if let some declaration ← typedExportDeclaration? g then
    return .exportDeclaration start declaration
  if let some kind ← typedExport? g then return kind
  let isTypeOnly ← eatTypedWord "type"
  if !isTypeOnly then
    if ← atWord "default" then return ← exportDefault g
    if let some declaration ← exportedDeclaration? g then
      return .exportDeclaration start declaration
  if ← atPunct "*" then exportAll g isTypeOnly else exportClause g isTypeOnly

/-- The next tokens begin an import, which no expression does that begins with the same word. -/
def atImport : Reader Bool := do
  unless ← atWord "import" do return false
  return !(← peek).isPunctOf ["(", "."]

def moduleItem : Reader Item := do
  let start ← here
  let kind ← do
    if ← atImport then importItem g
    else if ← atWord "export" then exportItem g
    else pure (.statement (← statement g true))
  return ⟨← spanFrom start, kind⟩

end TypedSvelte.Script.Grammar
