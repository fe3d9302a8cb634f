import TypedSvelte.Command.Report
import TypedSvelte.Kit.Config
import TypedSvelte.Workspace.Glob

/-!
# Runs

A run either answers a position query or transforms files: those that are named, or all of the
project that could need it. It sees the files as a tree and is told by its outcome: the tree
afterwards, what is printed, and the counts or what kept it from having any. It breaks off where
the work on one of its files does.
-/
namespace TypedSvelte.Command

open Kit

/-- Why the position of a query cannot be mapped. -/
inductive Unmapped where
  | refused (error : TransformError)
  | needsNothing
  deriving DecidableEq, Repr

def Unmapped.message : Unmapped → String
  | .refused error => error.message
  | .needsNothing => "the file needs no shim"

inductive RunError where
  | invalidGlob (pattern : String) (fault : GlobFault)
  | readFailed (path : FilePath) (fault : FileFault)
  | writeFailed (path : FilePath) (fault : FileFault)
  | queryFailed (path : FilePath) (reason : Unmapped)
  | offsetOutOfRange (path : FilePath) (offset : Nat)
  deriving DecidableEq, Repr

/-- Why a run has no counts. -/
inductive Stop where
  | failed (error : RunError)
  /-- The work on a file has broken off. -/
  | brokenOff
  deriving DecidableEq, Repr

def RunError.message : RunError → String
  | .invalidGlob pattern fault =>
    "invalid glob pattern: error parsing glob '" ++ pattern ++ "': " ++ fault.message
  | .readFailed path fault => "failed to read " ++ path.text ++ ": " ++ fault.message
  | .writeFailed path fault => "failed to write " ++ path.text ++ ": " ++ fault.message
  | .queryFailed path reason => "cannot map positions in " ++ path.text ++ ": " ++ reason.message
  | .offsetOutOfRange path offset =>
    "offset " ++ toString offset ++ " is past the end of " ++ path.text

/-- A project: the files and the directory that it lies in. -/
structure Project where
  tree : Tree
  root : FilePath
  deriving DecidableEq, Repr, Inhabited

/-- Why the configuration of a project cannot be used. -/
inductive ConfigFault where
  | unreadable (fault : FileFault)
  | malformed
  deriving DecidableEq, Repr, Inhabited

def ConfigFault.warning (path : FilePath) : ConfigFault → String
  | .unreadable fault =>
    "Warning: Failed to parse " ++ path.text ++ ": " ++ fault.message ++ "\n"
  | .malformed => "Warning: Failed to parse " ++ path.text ++ "\n"

namespace Project

def configPath? (project : Project) : Option FilePath :=
  (Config.fileNames.map fun name => project.root.join (.ofText name)).find? project.tree.has

def configAt (project : Project) (path : FilePath) : Except ConfigFault Config :=
  match project.tree.read path with
  | .error fault => .error (.unreadable fault)
  | .ok source =>
    match Config.ofText? (path.extension? == some "ts") source with
    | some config => .ok config
    | none => .error .malformed

/-- The configuration of the project, and a warning if it cannot be used. -/
def config (project : Project) : Config × String :=
  match project.configPath? with
  | none => (.empty, "")
  | some path =>
    match project.configAt path with
    | .ok config => (config, "")
    | .error fault => (.empty, fault.warning path)

def relative (project : Project) (path : FilePath) : FilePath := path.relativeTo project.root

end Project

/-- Where the special files are: where an option says, or else the configuration, or else in the
usual places. -/
def places (options : Options) (config : Config) : KitPaths :=
  let pick (option : Option FilePath) (configured : Option String) (usual : FilePath) : FilePath :=
    (option.or (configured.map .ofText)).getD usual
  { serverHooks := pick options.hooksServer config.serverHooks KitPaths.standard.serverHooks
    clientHooks := pick options.hooksClient config.clientHooks KitPaths.standard.clientHooks
    params := pick options.paramsDir config.params KitPaths.standard.params }

def usualIgnores : List String := ["**/node_modules/**", "**/.svelte-kit/**", "**/dist/**"]

def readGlobs (patterns : List String) : Except RunError (List Glob) :=
  patterns.mapM fun pattern =>
    match Glob.ofText pattern with
    | .ok glob => .ok glob
    | .error fault => .error (.invalidGlob pattern fault)

/-- The file could need generated code, by its name. Declaration files never do. -/
def isCandidate (path : FilePath) : Bool :=
  let declares := path.fileName?.any fun name => ".d.ts".toList.isSuffixOf name.toList
  !declares && path.extension?.any fun extension =>
    extension == "svelte" || extension == "ts" || extension == "js"

namespace Project

def files (project : Project) : List FilePath :=
  match project.tree.locate project.root.parts with
  | .ok directory => (project.tree.filesBelow directory).map fun names => project.root.join ⟨names⟩
  | .error _ => []

/-- The files of the project that could need generated code and that no glob stands for. -/
def candidates (project : Project) (ignored : List Glob) : List FilePath :=
  project.files.filter fun path =>
    isCandidate path && !ignored.any fun glob => glob.accepts (project.relative path).text

/-- What becomes of a file, unless the work on it breaks off. -/
def outcome? (project : Project) (places : KitPaths) (path : FilePath) : Option FileOutcome :=
  match project.tree.read path with
  | .error fault => some (.failed (.unreadable fault))
  | .ok source =>
    match transformFile (project.relative path) source places with
    | .ok (some file) => some (.transformed file)
    | .ok none => some .skipped
    | .error (.refused error) =>
      some (.failed (.refused error (error.offset?.map (Place.ofOffset source))))
    | .error .brokenCharacter => none

def report? (project : Project) (places : KitPaths) (path : FilePath) : Option FileReport :=
  (project.outcome? places path).map (FileReport.mk (project.relative path))

/-- The reports on files, in the order of their paths, unless the work on one of them breaks off. -/
def reports? (project : Project) (places : KitPaths) (paths : List FilePath) :
    Option (List FileReport) :=
  (paths.mapM (project.report? places)).map
    (List.mergeSort · fun a b => (a.path.compare b.path).isLE)

/-- The files to transform: those that are named, or else all candidates. -/
def selection (project : Project) (options : Options) : Except RunError (List FilePath) :=
  if options.files.isEmpty then
    (readGlobs (options.ignore ++ usualIgnores)).map project.candidates
  else .ok (options.files.map project.root.join)

end Project

/-- The path that the generated code of a file is written to. Components get another extension. -/
def outputPath (directory path : FilePath) : FilePath :=
  let target := directory.join path
  if path.extension? == some "svelte" then target.extendedBy ".ts" else target

def printed (path : FilePath) (code : String) : String :=
  "=== " ++ path.text ++ " ===\n" ++ code ++ "\n"

/-- Writes the generated code of the file at a path, if there is a directory to write to. -/
def writeCode (directory : Option FilePath) (tree : Tree) (path : FilePath) (code : String) :
    Tree × Option RunError :=
  match directory with
  | none => (tree, none)
  | some directory =>
    let target := outputPath directory path
    let (grown, fault) := tree.write target code
    (grown, fault.map (.writeFailed target))

/-- What the delivery of generated code leaves: the files, the code printed, and what ended it. -/
structure Delivery where
  tree : Tree
  stdout : String
  error : Option RunError
  deriving Repr

def Delivery.after (shown : String) (delivery : Delivery) : Delivery :=
  { delivery with stdout := shown ++ delivery.stdout }

def deliver (emit : Bool) (directory : Option FilePath) (tree : Tree) :
    List FileReport → Delivery
  | [] => ⟨tree, "", none⟩
  | report :: rest =>
    match report.code? with
    | none => deliver emit directory tree rest
    | some code =>
      let shown := if emit then printed report.path code else ""
      match writeCode directory tree report.path code with
      | (grown, some error) => ⟨grown, shown, some error⟩
      | (grown, none) => (deliver emit directory grown rest).after shown

structure Outcome where
  tree : Tree
  stdout : String
  stderr : String
  result : Except Stop Summary
  deriving Repr

def correspondence (project : Project) (places : KitPaths) (direction : Direction)
    (query : PositionQuery) : Except Stop Correspondence := do
  let fail {α : Type} (error : RunError) : Except Stop α := throw (.failed error)
  let path := project.root.join query.file
  let source ←
    match project.tree.read path with
    | .ok source => pure source
    | .error fault => fail (.readFailed path fault)
  let file ←
    match transformFile (project.relative path) source places with
    | .ok (some file) => pure file
    | .ok none => fail (.queryFailed query.file .needsNothing)
    | .error (.refused error) => fail (.queryFailed query.file (.refused error))
    | .error .brokenCharacter => throw .brokenOff
  match direction with
  | .toGenerated =>
    if source.utf8ByteSize < query.offset then fail (.offsetOutOfRange query.file query.offset)
    return ⟨query.file, .ofOffset source query.offset,
      (file.toGenerated? query.offset).map (.ofOffset file.code), false⟩
  | .toOriginal =>
    if file.code.utf8ByteSize < query.offset then fail (.offsetOutOfRange query.file query.offset)
    let original := file.toOriginal query.offset
    return ⟨query.file, .ofOffset file.code query.offset,
      some (.ofOffset source original.offset), original.synthetic⟩

/-- Delivers the code of files and reports on them. Reports do not mix with code that is printed. -/
def Project.conclude (project : Project) (options : Options) (reports : List FileReport) : Outcome :=
  let delivery := deliver options.emit (options.outDir.map project.root.join) project.tree reports
  match delivery.error with
  | some error => ⟨delivery.tree, delivery.stdout, "", .error (.failed error)⟩
  | none =>
    let text := reportText options.format reports
    let summary := Summary.ofReports reports
    if options.emit then ⟨delivery.tree, delivery.stdout, text, .ok summary⟩
    else ⟨delivery.tree, delivery.stdout ++ text, "", .ok summary⟩

/-- Transforms files. No code is delivered before all of them have been worked on. -/
def transformAll (project : Project) (options : Options) (places : KitPaths)
    (paths : List FilePath) : Outcome :=
  match project.reports? places paths with
  | some reports => project.conclude options reports
  | none => ⟨project.tree, "", "", .error .brokenOff⟩

def runAt (project : Project) (options : Options) (places : KitPaths) : Outcome :=
  match options.query? with
  | some (direction, query) =>
    match correspondence project places direction query with
    | .ok answer => ⟨project.tree, answer.render options.format, "", .ok .zero⟩
    | .error stop => ⟨project.tree, "", "", .error stop⟩
  | none =>
    match project.selection options with
    | .ok paths => transformAll project options places paths
    | .error error => ⟨project.tree, "", "", .error (.failed error)⟩

def run (here : FilePath) (options : Options) (tree : Tree) : Outcome :=
  let project : Project := ⟨tree, here.join options.root⟩
  let (config, warning) := project.config
  let outcome := runAt project options (places options config)
  { outcome with stderr := warning ++ outcome.stderr }

end TypedSvelte.Command
