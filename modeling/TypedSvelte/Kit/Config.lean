import TypedSvelte.Kit.FileKind
import TypedSvelte.Script.Parse

/-!
# Project configuration

A configuration module exports an object that can say where the special files of the project are.
Only what is spelled out is read: objects and strings in their places, behind parentheses and type
assertions or bound to a name at the top level; nothing is evaluated.
-/
namespace TypedSvelte.Kit

open Script

/-- The places of special files that a configuration names. -/
structure Config where
  serverHooks : Option String
  clientHooks : Option String
  params : Option String
  deriving DecidableEq, Repr, Inhabited

namespace Config

/-- The configuration that names no places. -/
def empty : Config := ⟨none, none, none⟩

abbrev Properties := List (String × Value)

def property? (properties : Properties) (name : String) : Option Value :=
  (List.lookup name properties).map Value.bare

def objectProperty? (properties : Properties) (name : String) : Option Properties :=
  match property? properties name with
  | some (.object inner) => some inner
  | _ => none

def textProperty? (properties : Properties) (name : String) : Option String :=
  match property? properties name with
  | some (.text value) => some value
  | _ => none

/-- Takes the places from an exported object. An object that names no places of files leaves those
named before; otherwise hooks are kept only if it says nothing of them. -/
def takeFrom (config : Config) (exported : Properties) : Config :=
  match (objectProperty? exported "kit").bind (objectProperty? · "files") with
  | none => config
  | some files =>
    let hooked : Config :=
      match objectProperty? files "hooks" with
      | none => config
      | some hooks =>
        { config with
          serverHooks := textProperty? hooks "server"
          clientHooks := textProperty? hooks "client" }
    { hooked with params := textProperty? files "params" }

def boundObject? (name : String) (declarator : Declarator) : Option Properties :=
  match declarator.target, declarator.initial.map Value.bare with
  | .name _ text _, some (.object properties) => if text = name then some properties else none
  | _, _ => none

/-- The declarators of the variables that a top-level item declares without exporting them. -/
def declarators (item : Item) : List Declarator :=
  match item.kind with
  | .statement (.declaration (.bindings declarators)) => declarators
  | _ => []

def namedObject? (items : List Item) (name : String) : Option Properties :=
  (items.flatMap declarators).findSome? (boundObject? name)

def exportedObject? (items : List Item) (value : Value) : Option Properties :=
  match value.bare with
  | .object properties => some properties
  | .name name => namedObject? items name
  | _ => none

def exportedObjects (items : List Item) : List Properties :=
  items.filterMap fun item =>
    match item.kind with
    | .exportDefault _ (some value) => exportedObject? items value
    | _ => none

def ofOutline (outline : Outline) : Config :=
  (exportedObjects outline.items).foldl takeFrom empty

/-- The configuration that a text holds, if it can be read to its end. -/
def ofText? (typed : Bool) (source : String) : Option Config :=
  match readText typed source with
  | .ok reading => some (ofOutline reading.outline)
  | .error _ => none

/-- The names that a configuration module can have; the first that is there counts. -/
def fileNames : List String := ["svelte.config.js", "svelte.config.mjs", "svelte.config.ts"]

end Config

end TypedSvelte.Kit
