import Mathlib.Logic.Relation
import TypedSvelte.Kit.Config
import TypedSvelte.Proofs.Outcome
import TypedSvelte.Proofs.Script.CursorPlaces

/-!
# Spellings of configurations

A configuration is read from values, and the same value can be spelled in several ways: in
parentheses, with a type asserted, with quoted keys, or bound to a name. `Value.readable` is what a
configuration takes notice of in a value, and all that it reads depends on this alone. So values
that differ only in their spelling hold the same configuration (`ofOutline_of_respelled`).

Two spellings are not seen through: a value asserted to be constant, and a declaration exported
where it stands.
-/
namespace TypedSvelte

namespace Script

mutual

/-- What a configuration takes notice of in a value, down to the values of properties. -/
def Value.readable : Value → Value
  | .name word => .name word
  | .text content => .text content
  | .object properties => .object (readableAll properties)
  | .group inner | .satisfying inner | .asserted inner => inner.readable
  | .function _ | .arrow _ | .assertedConst | .assignment _ | .other => .other

def Value.readableAll : List (String × Value) → List (String × Value)
  | [] => []
  | property :: properties => readableProperty property :: readableAll properties

def Value.readableProperty : String × Value → String × Value
  | (key, value) => (key, value.readable)

end

namespace Value

variable {value value' : Value} {properties : List (String × Value)}

private theorem readableAll_eq_map (properties : List (String × Value)) :
    readableAll properties = properties.map readableProperty := by
  induction properties with
  | nil => rfl
  | cons property rest ih => exact congrArg (readableProperty property :: ·) ih

private theorem lookup_readableAll (wanted : String) (properties : List (String × Value)) :
    (readableAll properties).lookup wanted = (properties.lookup wanted).map readable := by
  induction properties with
  | nil => rfl
  | cons property rest ih =>
    obtain ⟨name, value⟩ := property
    change List.lookup wanted ((name, value.readable) :: readableAll rest) = _
    rw [List.lookup_cons, List.lookup_cons, ih]
    cases wanted == name <;> rfl

/-- Taking off what is around a value leaves what is read of it. -/
@[simp]
theorem readable_bare (value : Value) : value.bare.readable = value.readable := by
  fun_induction bare value with
  | case1 inner ih | case2 inner ih | case3 inner ih => exact ih
  | case4 value => rfl

def properties? : Value → Option (List (String × Value))
  | .object properties => some properties
  | _ => none

def content? : Value → Option String
  | .text content => some content
  | _ => none

/-- What is read of a value has nothing around it, and is an object or a string as the value is
within all that is around it. -/
theorem readable_spec (value : Value) : value.readable.bare = value.readable ∧
    value.readable.properties? = value.bare.properties?.map readableAll ∧
    value.readable.content? = value.bare.content? := by
  fun_induction bare value with
  | case1 inner ih | case2 inner ih | case3 inner ih => exact ih
  | case4 value grouped satisfied asserted =>
    cases value with
    | group inner => exact absurd rfl (grouped inner)
    | satisfying inner => exact absurd rfl (satisfied inner)
    | asserted inner => exact absurd rfl (asserted inner)
    | name _ | text _ | object _ | function _ | arrow _ | assertedConst | assignment _ | other =>
      exact ⟨rfl, rfl, rfl⟩

private theorem eq_object_of_properties? (found : value.properties? = some properties) :
    value = .object properties := by
  cases value with
  | object _ => exact congrArg object (Option.some.inj found)
  | _ => cases found

/-- A value that is read as an object is one, within all that is around it. -/
theorem exists_bare_of_readable {read : List (String × Value)}
    (same : value.readable = .object read) :
    ∃ properties, value.bare = .object properties ∧ readableAll properties = read := by
  have object := value.readable_spec.2.1
  rw [same] at object
  obtain ⟨properties, found, rfl⟩ := Option.map_eq_some_iff.1 object.symm
  exact ⟨properties, eq_object_of_properties? found, rfl⟩

/-- What can be around a value without hiding it. -/
inductive Wrapper where
  | group | satisfying | asserted
  deriving DecidableEq, Repr

def Wrapper.around : Wrapper → Value → Value
  | group => Value.group
  | satisfying => Value.satisfying
  | asserted => Value.asserted

/-- Something is put around a value in one place: around the whole, within what is around it, or
around the value of a property, at any depth. -/
inductive Respelled : Value → Value → Prop
  | whole (w : Wrapper) (value : Value) : Respelled value (w.around value)
  | within (w : Wrapper) {value value' : Value} (respelled : Respelled value value') :
      Respelled (w.around value) (w.around value')
  | property (before : List (String × Value)) (key : String) (behind : List (String × Value))
      {value value' : Value} (respelled : Respelled value value') :
      Respelled (.object (before ++ (key, value) :: behind))
        (.object (before ++ (key, value') :: behind))

private theorem readable_around (w : Wrapper) (value : Value) :
    (w.around value).readable = value.readable := by
  cases w <;> rfl

/-- Nothing that is put around a value in one place changes what is read of it. -/
theorem Respelled.readable_eq (respelled : Respelled value value') :
    value'.readable = value.readable := by
  induction respelled with
  | whole w value => exact readable_around w value
  | within w _ ih => rw [readable_around, readable_around, ih]
  | property before key behind _ ih =>
    change Value.object (readableAll _) = .object (readableAll _)
    simp only [readableAll_eq_map, List.map_append, List.map_cons]
    rw [readableProperty, readableProperty, ih]

/-- Nor does anything that is put around it in any number of places. -/
theorem readable_eq_of_respelled (respelled : Relation.ReflTransGen Respelled value value') :
    value'.readable = value.readable := by
  induction respelled with
  | refl => rfl
  | tail _ step ih => exact step.readable_eq.trans ih

end Value

section

variable {g : Grammar} {context : Context} {cursor last : Cursor}

/-- The token spells a name, as a word or in quotes. -/
def Token.Spells (t : Token) (name : String) : Prop :=
  (∃ escaped, t.kind = .word name escaped) ∨ t.kind = .string (some name)

/-- The cursor where it stands, with other faults noted. -/
def Cursor.withFaults (cursor : Cursor) (faults : List Nat) : Cursor := { cursor with faults }

/-- The next token is passed, and its faults are noted. -/
theorem run_advance {value : Unit} (read : advance.run context cursor = .ok value last) :
    ∃ faults, last = (cursor.skip 0).withFaults faults := by
  cases read
  exact ⟨_, rfl⟩

/-- A piece of punctuation that is next is passed. -/
theorem run_eat {text : String} {value : Bool} (next : cursor.token.isPunct text = true)
    (read : (eat text).run context cursor = .ok value last) :
    value = true ∧ ∃ faults, last = (cursor.skip 0).withFaults faults := by
  obtain ⟨there, between, found, read⟩ := Reader.run_bind read
  obtain ⟨t, between, ⟨⟩, found⟩ := Reader.run_bind found
  cases found
  rw [next] at read
  obtain ⟨_, between, passed, read⟩ := Reader.run_bind read
  cases read
  exact ⟨rfl, run_advance passed⟩

private theorem run_propertyKey {name : String} {key : PropertyKey} (spelled : cursor.token.Spells name)
    (read : (propertyKey g).run context cursor = .ok key last) :
    key.name = some name ∧ ∃ faults, last = (cursor.skip 0).withFaults faults := by
  obtain ⟨t, between, ⟨⟩, read⟩ := Reader.run_bind read
  obtain ⟨escaped, word⟩ | quoted := spelled
  · rw [word] at read
    obtain ⟨_, between, passed, read⟩ := Reader.run_bind read
    cases read
    exact ⟨rfl, run_advance passed⟩
  · rw [quoted] at read
    obtain ⟨_, between, passed, read⟩ := Reader.run_bind read
    cases read
    exact ⟨rfl, run_advance passed⟩

/-- A property with a colon behind its key has the name that the key spells and the value of the
expression behind the colon. -/
theorem entry_of_keyedProperty {start : Nat} {access : Option Nat} {name : String}
    {property : Grammar.Property} (spelled : cursor.token.Spells name)
    (colon : (cursor.skip 0).token.isPunct ":" = true)
    (read : (Grammar.keyedProperty g start access).run context cursor = .ok property last) :
    ∃ faults e,
      (g.parse .assignment).run context (((cursor.skip 0).skip 0).withFaults faults) = .ok e last ∧
        property.entry = some (name, e.value) := by
  obtain ⟨key, between, first, read⟩ := Reader.run_bind read
  obtain ⟨named, faults, rfl⟩ := run_propertyKey spelled first
  obtain ⟨next, between, ⟨⟩, read⟩ := Reader.run_bind read
  obtain ⟨typed, between, asked, read⟩ := Reader.run_bind read
  obtain ⟨_, _, ⟨⟩, ⟨⟩⟩ := Reader.run_bind asked
  have follows : Grammar.followsKey (cursor.skip 0).token key = true := by
    unfold Grammar.followsKey
    rw [eq_of_beq colon]
    rfl
  change (ite ((context.typed && !Grammar.followsKey (cursor.skip 0).token key) = true) _ _ :
    Reader _).run _ _ = _ at read
  rw [follows, Bool.not_true, Bool.and_false, if_neg Bool.false_ne_true] at read
  obtain ⟨_, between, passed, read⟩ := Reader.run_bind read
  have atColon : ((cursor.skip 0).withFaults faults).token.isPunct ":" = true := colon
  obtain ⟨rfl, faults, rfl⟩ := run_eat atColon passed
  obtain ⟨e, between, value, read⟩ := Reader.run_bind read
  cases read
  exact ⟨faults, e, value, by rw [named]; rfl⟩

end

def Item.defaultValue? (item : Item) : Option Value :=
  match item.kind with
  | .exportDefault _ value => value
  | _ => none

/-- The name that a declarator declares, if it is no pattern. -/
def Declarator.name? (d : Declarator) : Option String :=
  match d.target with
  | .name _ text _ => some text
  | _ => none

end Script

namespace Kit.Config

open Script

variable {properties : Properties} {value value' : Value} {items : List Item}
  {config : Config} {name : String}

theorem objectProperty?_eq_bind (properties : Properties) (name : String) :
    objectProperty? properties name = (properties.lookup name).bind (·.bare.properties?) := by
  unfold objectProperty? property?
  cases properties.lookup name with
  | none => rfl
  | some value => cases spelled : value.bare <;> simp [spelled, Value.properties?]

theorem textProperty?_eq_bind (properties : Properties) (name : String) :
    textProperty? properties name = (properties.lookup name).bind (·.bare.content?) := by
  unfold textProperty? property?
  cases properties.lookup name with
  | none => rfl
  | some value => cases spelled : value.bare <;> simp [spelled, Value.content?]

/-- An object among the properties is read alike. -/
theorem objectProperty?_readableAll (properties : Properties) (name : String) :
    objectProperty? (Value.readableAll properties) name =
      (objectProperty? properties name).map Value.readableAll := by
  rw [objectProperty?_eq_bind, objectProperty?_eq_bind, Value.lookup_readableAll]
  cases properties.lookup name with
  | none => rfl
  | some value => exact (congrArg _ value.readable_spec.1).trans value.readable_spec.2.1

/-- A string among the properties is read as it is. -/
theorem textProperty?_readableAll (properties : Properties) (name : String) :
    textProperty? (Value.readableAll properties) name = textProperty? properties name := by
  rw [textProperty?_eq_bind, textProperty?_eq_bind, Value.lookup_readableAll]
  cases properties.lookup name with
  | none => rfl
  | some value => exact (congrArg _ value.readable_spec.1).trans value.readable_spec.2.2

/-- All that is taken from properties is read of them. -/
theorem takeFrom_readableAll (config : Config) (properties : Properties) :
    takeFrom config (Value.readableAll properties) = takeFrom config properties := by
  unfold takeFrom
  rw [objectProperty?_readableAll]
  cases objectProperty? properties "kit" with
  | none => rfl
  | some kit =>
    dsimp only [Option.map_some, Option.bind_some]
    rw [objectProperty?_readableAll]
    cases objectProperty? kit "files" with
    | none => rfl
    | some files =>
      dsimp only [Option.map_some]
      rw [objectProperty?_readableAll, textProperty?_readableAll]
      cases objectProperty? files "hooks" with
      | none => rfl
      | some hooks =>
        dsimp only [Option.map_some]
        rw [textProperty?_readableAll, textProperty?_readableAll]

/-- A module exports a value by default, and nothing else: the value itself, or the name of a
variable that is declared at the top level with that value, without being exported there. -/
inductive Exports (items : List Item) : Value → Prop
  | directly {value : Value} (only : items.filterMap Item.defaultValue? = [value]) :
      Exports items value
  | byName {value mention : Value} {place : Span} {name : String} {typeStop : Option Nat}
      (only : items.filterMap Item.defaultValue? = [mention]) (named : mention.bare = .name name)
      (declared : (items.flatMap declarators).find? (·.name? == some name) =
        some ⟨.name place name typeStop, some value⟩) :
      Exports items value

/-- Only declarators of the name can bind an object to it. -/
theorem boundObject?_of_name_ne {declarator : Declarator}
    (other : (declarator.name? == some name) = false) : boundObject? name declarator = none := by
  unfold boundObject?
  split
  · rename_i place text typeStop properties target _
    have differs : text ≠ name := by
      rintro rfl
      unfold Declarator.name? at other
      rw [target] at other
      exact absurd other (by simp)
    exact if_neg differs
  · rfl

theorem namedObject?_of_declared {place : Span} {typeStop : Option Nat}
    (declared : (items.flatMap declarators).find? (·.name? == some name) =
      some ⟨.name place name typeStop, some value⟩) (object : value.bare = .object properties) :
    namedObject? items name = some properties := by
  obtain ⟨-, before, behind, parts, others⟩ := List.find?_eq_some_iff_append.1 declared
  have bound : boundObject? name ⟨.name place name typeStop, some value⟩ = some properties := by
    unfold boundObject?
    simp [object]
  unfold namedObject?
  rw [parts, List.findSome?_append, List.findSome?_eq_none_iff.2, List.findSome?_cons, bound]
  · rfl
  · exact fun d member => boundObject?_of_name_ne (by simpa using others d member)

private theorem exportedObjects_eq (items : List Item) :
    exportedObjects items =
      (items.filterMap Item.defaultValue?).filterMap (exportedObject? items) := by
  unfold exportedObjects
  rw [List.filterMap_filterMap]
  refine congrArg (List.filterMap · items) (funext fun item => ?_)
  obtain ⟨span, kind⟩ := item
  cases kind with
  | exportDefault name value => cases value <;> rfl
  | _ => rfl

/-- A module with a single default export has the configuration of the object that it exports. -/
theorem ofOutline_of_only {outline : Outline}
    (only : outline.items.filterMap Item.defaultValue? = [value]) :
    ofOutline outline =
      ((exportedObject? outline.items value).map (takeFrom empty)).getD empty := by
  unfold ofOutline
  rw [exportedObjects_eq, only, List.filterMap_cons]
  cases exportedObject? outline.items value <;> rfl

/-- The object that a module exports is what its configuration is taken from. -/
theorem ofOutline_of_exports {outline : Outline} (exported : Exports outline.items value)
    (object : value.bare = .object properties) :
    ofOutline outline = takeFrom empty properties := by
  cases exported with
  | directly only =>
    rw [ofOutline_of_only only, exportedObject?, object]
    rfl
  | byName only named declared =>
    rw [ofOutline_of_only only, exportedObject?, named]
    exact congrArg (fun found => (found.map (takeFrom empty)).getD empty)
      (namedObject?_of_declared declared object)

/-- Nothing is read of an exported value that is asserted to be constant, nor of one that only an
exported declaration binds to the name that is exported. -/
theorem ofOutline_of_hidden {outline : Outline}
    (only : outline.items.filterMap Item.defaultValue? = [value])
    (hidden : value.bare = .assertedConst ∨ ∃ name, value.bare = .name name ∧
      ∀ d ∈ outline.items.flatMap declarators, d.name? ≠ some name) :
    ofOutline outline = empty := by
  have lost : exportedObject? outline.items value = none := by
    unfold exportedObject?
    obtain constant | ⟨name, named, undeclared⟩ := hidden
    · rw [constant]
    · rw [named]
      refine List.findSome?_eq_none_iff.2 fun d member => boundObject?_of_name_ne ?_
      exact beq_eq_false_iff_ne.2 (undeclared d member)
  rw [ofOutline_of_only only, lost]
  rfl

/-- How a configuration is spelled does not matter. If a module exports an object, another that
exports it with parentheses and asserted types put around any of its values, as it stands or by a
name, holds the same configuration; and a key that is quoted counts like one that is a word. An
object asserted to be constant, and a declaration exported where it stands, are not looked into. -/
theorem ofOutline_of_respelled (outline : Outline) (value : Value) :
    (∀ (other : Outline) (value' : Value) (properties : Properties),
      Exports outline.items value → value.bare = .object properties →
      Exports other.items value' → Relation.ReflTransGen Value.Respelled value value' →
      ofOutline other = ofOutline outline) ∧
    (∀ (g : Grammar) (context : Context) (cursor last : Cursor) (start : Nat) (access : Option Nat)
        (name : String) (property : Grammar.Property),
      cursor.token.Spells name → (cursor.skip 0).token.isPunct ":" = true →
      (Grammar.keyedProperty g start access).run context cursor = .ok property last →
      ∃ faults e,
        (g.parse .assignment).run context (((cursor.skip 0).skip 0).withFaults faults) =
          .ok e last ∧ property.entry = some (name, e.value)) ∧
    (outline.items.filterMap Item.defaultValue? = [value] →
      (value.bare = .assertedConst ∨ ∃ name, value.bare = .name name ∧
        ∀ d ∈ outline.items.flatMap declarators, d.name? ≠ some name) →
      ofOutline outline = empty) := by
  refine ⟨fun other value' properties exported object exported' respelled => ?_,
    fun _ _ _ _ _ _ _ _ spelled colon read => entry_of_keyedProperty spelled colon read,
    ofOutline_of_hidden⟩
  have same : value'.readable = .object (Value.readableAll properties) := by
    rw [Value.readable_eq_of_respelled respelled, ← value.readable_bare, object]
    rfl
  obtain ⟨properties', object', alike⟩ := Value.exists_bare_of_readable same
  rw [ofOutline_of_exports exported object, ofOutline_of_exports exported' object',
    ← takeFrom_readableAll, alike, takeFrom_readableAll]

/-- An object as it stands, and with parentheses around it and a type asserted of one of its values,
bound to a name; a quoted key; and an object asserted to be constant. -/
theorem ofOutline_of_respelled_params :
    let files : Value := .object [("params", .text "m")]
    let plain : Outline := ⟨[⟨⟨0, 52⟩, .exportDefault none (some (.object [("kit",
      .object [("files", files)])]))⟩], []⟩
    let bound : Outline := ⟨[⟨⟨0, 65⟩, .statement (.declaration (.bindings [⟨.name ⟨6, 7⟩ "c" none,
      some (.group (.object [("kit", .object [("files", .satisfying files)])]))⟩]))⟩,
      ⟨⟨66, 85⟩, .exportDefault none (some (.group (.name "c")))⟩], [⟨⟨6, 7⟩, "c"⟩]⟩
    let constant : Outline := ⟨[⟨⟨0, 61⟩, .exportDefault none (some .assertedConst)⟩], []⟩
    let key := Cursor.first "'kit': 1\x7d".toList
    ofOutline bound = ofOutline plain ∧ ofOutline constant = empty ∧
      ∃ property last faults e,
        (Grammar.keyedProperty (grammar 20) 0 none).run (.top true) key = .ok property last ∧
        ((grammar 20).parse .assignment).run (.top true)
          (((key.skip 0).skip 0).withFaults faults) = .ok e last ∧
        property.entry = some ("kit", e.value) := by
  intro files plain bound constant key
  have rewritten : Relation.ReflTransGen Value.Respelled
      (.object [("kit", .object [("files", files)])])
      (.group (.object [("kit", .object [("files", .satisfying files)])])) :=
    .tail (.single (.property [] "kit" [] (.property [] "files" [] (.whole .satisfying files))))
      (.whole .group _)
  have accepted : (match (Grammar.keyedProperty (grammar 20) 0 none).run (.top true) key with
      | .ok _ _ => true | .error _ _ => false) = true := by decide +kernel
  split at accepted
  · rename_i property last read
    obtain ⟨respelled, keyed, -⟩ := ofOutline_of_respelled plain
      (.object [("kit", .object [("files", files)])])
    obtain ⟨faults, e, value, entry⟩ := keyed _ _ key last 0 none "kit" property
      (.inr (by decide +kernel)) (by decide +kernel) read
    have same := respelled bound _ _ (.directly rfl) rfl (.byName rfl rfl rfl) rewritten
    have lost := (ofOutline_of_respelled constant .assertedConst).2.2 rfl (.inl rfl)
    exact ⟨same, lost, property, last, faults, e, read, value, entry⟩
  · cases accepted

/-- An object asserted to be constant, and one that is bound to a name by a declaration exported
where it stands, are lost. -/
theorem ofText?_spelling_lost :
    let object := "\x7b kit: \x7b files: \x7b params: 'm' \x7d \x7d \x7d"
    let found : Option Config := some ⟨none, none, some "m"⟩
    ofText? true ("export default " ++ object ++ ";") = found ∧
    ofText? true ("export default " ++ object ++ " as const;") = some empty ∧
    ofText? false ("const c = " ++ object ++ ";\nexport default c;") = found ∧
    ofText? false ("export const c = " ++ object ++ ";\nexport default c;") = some empty := by
  decide +kernel

end Kit.Config

end TypedSvelte
