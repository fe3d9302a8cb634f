import TypedSvelte.Text.Blank
import TypedSvelte.Workspace.FilePath

/-!
# Special files

The modules of a SvelteKit project whose exports have known types are recognised by their paths:
routes by their names, hooks and parameter matchers by where the project keeps them.
-/
namespace TypedSvelte.Kit

inductive RouteKind where
  | page
  | layout
  | pageServer
  | layoutServer
  /-- An endpoint that answers requests. -/
  | server
  deriving DecidableEq, Repr, Inhabited

def RouteKind.baseName : RouteKind → String
  | .page => "+page"
  | .layout => "+layout"
  | .pageServer => "+page.server"
  | .layoutServer => "+layout.server"
  | .server => "+server"

def RouteKind.all : List RouteKind := [.page, .layout, .pageServer, .layoutServer, .server]

/-- The part of a file name that tells the kind of a route: what stands before an at sign, or else
before the last dot. -/
def routeName (fileName : String) : String :=
  let chars := fileName.toList
  if chars.contains '@' then String.ofList (chars.takeWhile (· != '@'))
  else if chars.contains '.' then
    String.ofList ((chars.reverse.dropWhile (· != '.')).drop 1).reverse
  else fileName

def RouteKind.ofFileName? (fileName : String) : Option RouteKind :=
  RouteKind.all.find? fun kind => kind.baseName == routeName fileName

inductive FileKind where
  | route (kind : RouteKind)
  | serverHooks
  | clientHooks
  | params
  deriving DecidableEq, Repr, Inhabited

def FileKind.label : FileKind → String
  | .route kind => kind.baseName
  | .serverHooks => "server hooks"
  | .clientHooks => "client hooks"
  | .params => "params"

/-- Where a project keeps its hooks, without extensions, and its parameter matchers. -/
structure KitPaths where
  serverHooks : FilePath
  clientHooks : FilePath
  params : FilePath
  deriving DecidableEq, Repr, Inhabited

def KitPaths.standard : KitPaths where
  serverHooks := .ofText "src/hooks.server"
  clientHooks := .ofText "src/hooks.client"
  params := .ofText "src/params"

/-- The path is that of a hooks module, or of the index module of a hooks directory. -/
def isHooksFile (path hooks : FilePath) : Bool :=
  let isIndex := match path.fileName? with
    | some name => name == "index.ts" || name == "index.js"
    | none => false
  (isIndex && path.directoryEndsWith hooks) || path.withoutExtension.endsWith hooks

/-- The path is that of a parameter matcher; tests beside matchers are none. -/
def isParamsFile (path params : FilePath) : Bool :=
  match path.fileName? with
  | some name =>
    path.directoryEndsWith params
      && (findText? ".test".toList name.toList).isNone
      && (findText? ".spec".toList name.toList).isNone
  | none => false

/-- The kind of the special file at a path. The first kind that fits counts. -/
def classify? (path : FilePath) (places : KitPaths) : Option FileKind := do
  let name ← path.fileName?
  if path.extension? != some "ts" && path.extension? != some "js" then none
  else if let some kind := RouteKind.ofFileName? name then some (.route kind)
  else if isHooksFile path places.serverHooks then some .serverHooks
  else if isHooksFile path places.clientHooks then some .clientHooks
  else if isParamsFile path places.params then some .params
  else none

end TypedSvelte.Kit
