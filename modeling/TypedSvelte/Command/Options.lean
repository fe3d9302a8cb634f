import TypedSvelte.Kit.FileKind

/-!
# Command line options

What a command line asks for. Settings take a value, switches do not; all but the ignore globs and
the files may be given once. The value of a setting that stands in an argument of its own is looked
at only when the next known argument comes, or the end, so an unknown argument right after a bad
value is what is reported.
-/
namespace TypedSvelte.Command

inductive OutputFormat where
  | human
  | json
  deriving DecidableEq, Repr, Inhabited

/-- A question for the position that an offset of a file is mapped to. -/
structure PositionQuery where
  file : FilePath
  offset : Nat
  deriving DecidableEq, Repr, Inhabited

inductive Direction where
  | toGenerated
  | toOriginal
  deriving DecidableEq, Repr, Inhabited

inductive Setting where
  | workspace
  | output
  | outDir
  | ignore
  | hooksServer
  | hooksClient
  | paramsDir
  | query (direction : Direction)
  /-- Where to write the declarations that generated components use. -/
  | emitShims
  deriving DecidableEq, Repr, Inhabited

inductive Switch where
  | emit
  | verbose
  | help
  | version
  deriving DecidableEq, Repr, Inhabited

def Setting.all : List Setting :=
  [.workspace, .output, .outDir, .ignore, .hooksServer, .hooksClient, .paramsDir,
    .query .toGenerated, .query .toOriginal, .emitShims]

def Setting.name : Setting → String
  | .workspace => "workspace"
  | .output => "output"
  | .outDir => "out-dir"
  | .ignore => "ignore"
  | .hooksServer => "hooks-server"
  | .hooksClient => "hooks-client"
  | .paramsDir => "params-dir"
  | .query .toGenerated => "to-generated"
  | .query .toOriginal => "to-original"
  | .emitShims => "emit-shims"

def Switch.all : List Switch := [.emit, .verbose, .help, .version]

def Switch.name : Switch → String
  | .emit => "emit"
  | .verbose => "verbose"
  | .help => "help"
  | .version => "version"

def Switch.ofLetter? : Char → Option Switch
  | 'v' => some .verbose
  | 'h' => some .help
  | 'V' => some .version
  | _ => none

structure Options where
  /-- The directory of the project. -/
  workspace : Option FilePath
  output : Option OutputFormat
  /-- The directory that generated files are written to. -/
  outDir : Option FilePath
  /-- Generated code is printed. -/
  emit : Bool
  /-- Globs of files that are passed over when the project is searched. -/
  ignore : List String
  hooksServer : Option FilePath
  hooksClient : Option FilePath
  paramsDir : Option FilePath
  toGenerated : Option PositionQuery
  toOriginal : Option PositionQuery
  emitShims : Option FilePath
  verbose : Bool
  /-- The files to transform; if there are none, the project is searched. -/
  files : List FilePath
  deriving DecidableEq, Repr, Inhabited

def Options.none : Options where
  workspace := .none
  output := .none
  outDir := .none
  emit := false
  ignore := []
  hooksServer := .none
  hooksClient := .none
  paramsDir := .none
  toGenerated := .none
  toOriginal := .none
  emitShims := .none
  verbose := false
  files := []

/-- The directory of the project; the current one unless another is given. -/
def Options.root (options : Options) : FilePath := options.workspace.getD (.ofText ".")

/-- The form of reports, for human readers unless asked otherwise. -/
def Options.format (options : Options) : OutputFormat := options.output.getD .human

/-- The position query to be answered. One for generated positions comes first. -/
def Options.query? (options : Options) : Option (Direction × PositionQuery) :=
  match options.toGenerated, options.toOriginal with
  | some query, _ => some (.toGenerated, query)
  | .none, some query => some (.toOriginal, query)
  | .none, .none => .none

inductive UsageError where
  | unknownArgument (argument : String)
  /-- A value is none of those that can be chosen. -/
  | unknownChoice (setting : Setting) (value : String)
  | missingValue (setting : Setting)
  /-- A value that is no position query. -/
  | malformedQuery (setting : Setting) (value : String)
  | repeatedSetting (setting : Setting)
  | repeatedSwitch (switch : Switch)
  /-- A switch is given a value. -/
  | unwantedValue (switch : Switch) (value : String)
  deriving DecidableEq, Repr, Inhabited

def UsageError.message : UsageError → String
  | .unknownArgument argument => "unexpected argument '" ++ argument ++ "'"
  | .unknownChoice setting value => "invalid value '" ++ value ++ "' for --" ++ setting.name
  | .missingValue setting => "a value is required for --" ++ setting.name
  | .malformedQuery setting value => "invalid value '" ++ value ++ "' for --" ++ setting.name
  | .repeatedSetting setting => "--" ++ setting.name ++ " cannot be used multiple times"
  | .repeatedSwitch switch => "--" ++ switch.name ++ " cannot be used multiple times"
  | .unwantedValue switch value => "unexpected value '" ++ value ++ "' for --" ++ switch.name

inductive Request where
  | help
  | version
  | run (options : Options)
  deriving DecidableEq, Repr, Inhabited

/-- The number that digits spell, after a plus sign or none, if it fits into 32 bits. -/
def offset? (text : List Char) : Option Nat :=
  let digits := if text.head? == some '+' then text.tail else text
  if digits.isEmpty || !digits.all Char.isDigit then .none
  else
    let value := digits.foldl (fun n c => 10 * n + (c.toNat - '0'.toNat)) 0
    if value < UInt32.size then some value else .none

/-- The query that a text spells: a file, a colon and an offset. -/
def PositionQuery.ofText? (text : String) : Option PositionQuery :=
  let reversed := text.toList.reverse
  let file := ((reversed.dropWhile (· != ':')).drop 1).reverse
  if file.isEmpty then .none
  else (offset? (reversed.takeWhile (· != ':')).reverse).map (⟨.ofText (String.ofList file), ·⟩)

def OutputFormat.ofText? : String → Option OutputFormat
  | "human" => some .human
  | "json" => some .json
  | _ => .none

namespace Options

def once {α : Type} (setting : Setting) (old : Option α) (value : Except UsageError α) :
    Except UsageError (Option α) :=
  if old.isSome then .error (.repeatedSetting setting) else value.map some

def set (options : Options) (setting : Setting) (value : String) : Except UsageError Options :=
  let path : Except UsageError FilePath := .ok (.ofText value)
  let query : Except UsageError PositionQuery :=
    match PositionQuery.ofText? value with
    | some query => .ok query
    | .none => .error (.malformedQuery setting value)
  match setting with
  | .workspace => (once setting options.workspace path).map ({ options with workspace := · })
  | .output =>
    let format : Except UsageError OutputFormat :=
      match OutputFormat.ofText? value with
      | some format => .ok format
      | .none => .error (.unknownChoice setting value)
    (once setting options.output format).map ({ options with output := · })
  | .outDir => (once setting options.outDir path).map ({ options with outDir := · })
  | .ignore => .ok { options with ignore := options.ignore ++ [value] }
  | .hooksServer => (once setting options.hooksServer path).map ({ options with hooksServer := · })
  | .hooksClient => (once setting options.hooksClient path).map ({ options with hooksClient := · })
  | .paramsDir => (once setting options.paramsDir path).map ({ options with paramsDir := · })
  | .query .toGenerated =>
    (once setting options.toGenerated query).map ({ options with toGenerated := · })
  | .query .toOriginal =>
    (once setting options.toOriginal query).map ({ options with toOriginal := · })
  | .emitShims => (once setting options.emitShims path).map ({ options with emitShims := · })

/-- Turns a switch on; the switches that ask for information end the reading. -/
def turnOn (options : Options) : Switch → Except UsageError (Options ⊕ Request)
  | .emit =>
    if options.emit then .error (.repeatedSwitch .emit)
    else .ok (.inl { options with emit := true })
  | .verbose =>
    if options.verbose then .error (.repeatedSwitch .verbose)
    else .ok (.inl { options with verbose := true })
  | .help => .ok (.inr .help)
  | .version => .ok (.inr .version)

end Options

/-- A setting whose value has not been looked at, and the value if it has come. -/
abbrev Waiting := Option (Setting × Option String)

def settle (options : Options) : Waiting → Except UsageError Options
  | .none => .ok options
  | some (setting, .none) => .error (.missingValue setting)
  | some (setting, some value) => options.set setting value

inductive Argument where
  /-- Two dashes: all that follows are files. -/
  | endOfOptions
  /-- Two dashes and a name, and a value after an equals sign. -/
  | long (name : String) (value : Option String)
  /-- A dash and letters. -/
  | letters (names : List Char)
  | plain
  deriving DecidableEq, Repr, Inhabited

def Argument.ofText (text : String) : Argument :=
  match text.toList with
  | ['-', '-'] => .endOfOptions
  | '-' :: '-' :: rest =>
    let value := rest.dropWhile (· != '=')
    .long (String.ofList (rest.takeWhile (· != '=')))
      (if value.isEmpty then .none else some (String.ofList value.tail))
  | ['-'] => .plain
  | '-' :: names => .letters names
  | _ => .plain

def turnOnAll (options : Options) : List Char → Except UsageError (Options ⊕ Request)
  | [] => .ok (.inl options)
  | letter :: rest =>
    match Switch.ofLetter? letter with
    | .none => .error (.unknownArgument (String.ofList ['-', letter]))
    | some switch =>
      match options.turnOn switch with
      | .ok (.inl next) => turnOnAll next rest
      | ended => ended

def readArguments (options : Options) (waiting : Waiting) :
    List String → Except UsageError Request
  | [] => (settle options waiting).map .run
  | text :: rest =>
    match Argument.ofText text with
    | .endOfOptions => do
      let options ← settle options waiting
      return .run { options with files := options.files ++ rest.map .ofText }
    | .long name value =>
      match Setting.all.find? (·.name == name), Switch.all.find? (·.name == name), value with
      | some setting, _, some value => do
        let options ← settle options waiting
        let options ← options.set setting value
        readArguments options .none rest
      | some setting, _, .none => do
        let options ← settle options waiting
        readArguments options (some (setting, .none)) rest
      | .none, some switch, some value => .error (.unwantedValue switch value)
      | .none, some switch, .none => do
        let options ← settle options waiting
        match ← options.turnOn switch with
        | .inl options => readArguments options .none rest
        | .inr request => return request
      | .none, .none, _ => .error (.unknownArgument text)
    | .letters names =>
      if names.head?.all fun letter => (Switch.ofLetter? letter).isNone then
        .error (.unknownArgument text)
      else do
        let options ← settle options waiting
        match ← turnOnAll options names with
        | .inl options => readArguments options .none rest
        | .inr request => return request
    | .plain =>
      match waiting with
      | some (setting, .none) => readArguments options (some (setting, some text)) rest
      | _ => do
        let options ← settle options waiting
        readArguments { options with files := options.files ++ [.ofText text] } .none rest

def Request.ofArguments (arguments : List String) : Except UsageError Request :=
  readArguments .none .none arguments

def Setting.purpose : Setting → String
  | .workspace => "Project root"
  | .output => "Output format: human or json"
  | .outDir => "Write generated files into this directory"
  | .ignore => "Glob patterns to ignore"
  | .hooksServer => "Server hooks file, without extension"
  | .hooksClient => "Client hooks file, without extension"
  | .paramsDir => "Directory holding param matchers"
  | .query .toGenerated => "Map an original offset, FILE:OFFSET, to the generated file"
  | .query .toOriginal => "Map a generated offset, FILE:OFFSET, back to the original file"
  | .emitShims => "Write the helper declarations used by generated components"

def Switch.purpose : Switch → String
  | .emit => "Print generated code to stdout"
  | .verbose => "Log transformation decisions"
  | .help => "Print help"
  | .version => "Print version"

def helpText : String :=
  let line (name purpose : String) : String := "  --" ++ name ++ "\n          " ++ purpose ++ "\n"
  "Generate type-checkable TypeScript shims for Svelte and SvelteKit projects\n\n"
    ++ "Usage: svelte-shim [OPTIONS] [FILES]...\n\n"
    ++ "Arguments:\n  [FILES]...\n          "
    ++ "Files to transform instead of scanning the workspace\n\nOptions:\n"
    ++ "".intercalate (Setting.all.map fun setting =>
      line (setting.name ++ " <" ++ setting.name.toUpper ++ ">") setting.purpose)
    ++ "".intercalate (Switch.all.map fun switch => line switch.name switch.purpose)

def versionText : String := "svelte-shim 0.3.0\n"

end TypedSvelte.Command
