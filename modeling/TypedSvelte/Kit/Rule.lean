import TypedSvelte.Kit.FileKind

/-!
# Types of the exports of special files
-/
namespace TypedSvelte.Kit

inductive Typing where
  /-- The types of the only parameter and of the result of a function. -/
  | function (param result : String)
  | variable (type : String)
  deriving DecidableEq, Repr, Inhabited

/-- An exported name and the type that it is given. -/
structure Rule where
  name : String
  typing : Typing
  deriving DecidableEq, Repr, Inhabited

namespace Rule

def typedBy (name type : String) : Rule :=
  ⟨name, .function ("Parameters<" ++ type ++ ">[0]") ("ReturnType<" ++ type ++ ">")⟩

def ofVariable (name type : String) : Rule := ⟨name, .variable type⟩

end Rule

/-- The type of the `load` function of a route, which endpoints have none of. -/
def RouteKind.loadType? : RouteKind → Option String
  | .page => some "PageLoad"
  | .layout => some "LayoutLoad"
  | .pageServer => some "PageServerLoad"
  | .layoutServer => some "LayoutServerLoad"
  | .server => none

def requestHandlers : List String :=
  ["GET", "PUT", "POST", "PATCH", "DELETE", "OPTIONS", "HEAD", "fallback"]

def generatedType (name : String) : String := "import('./$types.js')." ++ name

def frameworkType (name : String) : String := "import('@sveltejs/kit')." ++ name

/-- The rules for `load`, which may be a function or a value. -/
def loadRules (kind : RouteKind) : List Rule :=
  match kind.loadType? with
  | some name =>
    [.typedBy "load" (generatedType name), .ofVariable "load" (generatedType name)]
  | none => []

/-- The rules that only one sort of route has. -/
def ownRules (kind : RouteKind) : List Rule :=
  if kind == .server then
    requestHandlers.map fun verb =>
      ⟨verb, .function (generatedType "RequestEvent") "Response | Promise<Response>"⟩
  else [.ofVariable "ssr" "boolean", .ofVariable "csr" "boolean"]

def RouteKind.rules (kind : RouteKind) : List Rule :=
  loadRules kind
    ++ (if kind == .pageServer then [.ofVariable "actions" (generatedType "Actions")] else [])
    ++ [.ofVariable "prerender" "boolean | 'auto'",
        .ofVariable "trailingSlash" "'never' | 'always' | 'ignore'"]
    ++ ownRules kind

def FileKind.rules : FileKind → List Rule
  | .route kind => kind.rules
  | .serverHooks =>
    [.typedBy "handleError" (frameworkType "HandleServerError"),
     .typedBy "handle" (frameworkType "Handle"),
     .typedBy "handleFetch" (frameworkType "HandleFetch")]
  | .clientHooks => [.typedBy "handleError" (frameworkType "HandleClientError")]
  | .params => [⟨"match", .function "string" "boolean"⟩]

def resultType (type : String) (isAsync : Bool) : String :=
  if !isAsync || type.startsWith "Promise<" then type
  else if type.startsWith "Awaited<" then "Promise<" ++ type ++ ">"
  else "Promise<Awaited<" ++ type ++ ">>"

end TypedSvelte.Kit
