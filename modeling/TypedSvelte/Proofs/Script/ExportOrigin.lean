import TypedSvelte.Proofs.Outcome
import TypedSvelte.Script.Exports

/-!
# Where exports come from

An export clause looks a local name up, an exported declaration brings its names along. Either way
what is exported has been declared by an item of the script, unless the name is free
(`origin_of_exports`).
-/
namespace TypedSvelte.Script

def Item.bound (item : Item) : List (String × Bound) :=
  match item.declaration? with
  | some d => d.bound
  | none => []

namespace Subject

variable {s : Subject} {mode : ExportMode} {exports next : Exports}

theorem boundEntry_shape (localName : String) (bound : Bound) (start : Nat) :
    (s.boundEntry localName bound start).shape = (bound.shape s.source).1 := rfl

/-- The export is that of a free name, or of one that an item declares. -/
def Origin (s : Subject) (entry : ExportEntry) : Prop :=
  entry = freeEntry entry.localName ∨
    ∃ item ∈ s.outline.items, ∃ bound, (entry.localName, bound) ∈ item.bound ∧
      entry = s.boundEntry entry.localName bound item.span.start

private theorem origin_boundEntry {item : Item} (member : item ∈ s.outline.items) {name : String}
    {bound : Bound} (declares : (name, bound) ∈ item.bound) :
    s.Origin (s.boundEntry name bound item.span.start) :=
  Or.inr ⟨item, member, bound, declares, rfl⟩

private theorem exists_item_of_mem_bindings {name : String} {bound : Bound} {start : Nat}
    (member : (name, bound, start) ∈ s.bindings) :
    ∃ item ∈ s.outline.items, (name, bound) ∈ item.bound ∧ start = item.span.start := by
  obtain ⟨item, itemMember, declared⟩ := List.mem_flatMap.1 member
  refine ⟨item, itemMember, ?_⟩
  split at declared
  · rename_i d isDeclaration
    obtain ⟨⟨_, _⟩, inDeclaration, same⟩ := List.mem_map.1 declared
    cases same
    rw [Item.bound, isDeclaration]
    exact ⟨inDeclaration, rfl⟩
  · cases declared

theorem origin_entry (s : Subject) (localName : String) : s.Origin (s.entry localName) := by
  unfold entry
  split
  · rename_i bound start found
    obtain ⟨before, after, parts, _⟩ := List.lookup_eq_some_iff.1 found
    have member : (localName, bound, start) ∈ s.bindings := parts ▸ List.mem_append_cons_self
    obtain ⟨item, itemMember, declares, rfl⟩ := exists_item_of_mem_bindings member
    exact origin_boundEntry itemMember declares
  · exact Or.inl rfl

def Originates (s : Subject) (entries : Entries ExportEntry) : Prop :=
  ∀ name entry, entries.get? name = some entry → s.Origin entry

theorem Originates.put {entries : Entries ExportEntry} (originates : s.Originates entries)
    (name : String) {value : ExportEntry} (origin : s.Origin value) :
    s.Originates (entries.put name value) := by
  intro other entry found
  rw [Entries.get?_put] at found
  split at found
  · cases found
    exact origin
  · exact originates other entry found

theorem Originates.addSpecifier (originates : s.Originates exports.entries) {start : Nat}
    {specifier : ExportSpecifier} (added : s.addSpecifier mode start exports specifier = .ok next) :
    s.Originates next.entries := by
  cases specifier with
  | everything =>
    cases mode with
    | component => cases added
    | standalone =>
      cases added
      exact originates
  | named source exported isTypeOnly =>
    cases isTypeOnly with
    | true =>
      cases added
      exact originates
    | false =>
      cases source with
      | string place => cases added
      | ident localName =>
        cases added
        exact originates.put _ (s.origin_entry localName)

private theorem Originates.addDeclared {item : Item} (member : item ∈ s.outline.items)
    {declared : List (String × Bound)} (part : ∀ d ∈ declared, d ∈ item.bound)
    {entries : Entries ExportEntry} (originates : s.Originates entries) :
    s.Originates (declared.foldl
      (fun entries (name, bound) => entries.put name (s.boundEntry name bound item.span.start))
      entries) := by
  induction declared generalizing entries with
  | nil => exact originates
  | cons d rest ih =>
    obtain ⟨here, restPart⟩ := List.forall_mem_cons.1 part
    exact ih restPart (originates.put d.1 (origin_boundEntry member here))

private theorem refuse_ok {fault : ExportFault} {offset : Nat}
    (passed : refuse mode fault offset exports = .ok next) : next = exports := by
  cases mode with
  | component => cases passed
  | standalone => exact (Except.ok.inj passed).symm

theorem Originates.addItem (originates : s.Originates exports.entries) {item : Item}
    (member : item ∈ s.outline.items) (added : s.addItem mode exports item = .ok next) :
    s.Originates next.entries := by
  unfold Subject.addItem at added
  dsimp only at added
  split at added
  case h_3 start d kind =>
    cases added
    have bound : item.bound = d.bound := by simp [Item.bound, Item.declaration?, kind]
    exact Originates.addDeclared member (fun _ declared => bound ▸ declared) originates
  case h_6 =>
    exact of_foldlM_ok (P := fun exports => s.Originates exports.entries) added originates
      fun _ holds _ _ _ one => holds.addSpecifier one
  all_goals first
    | rw [refuse_ok added]; exact originates
    | cases added; exact originates

theorem origin_of_exports (accepted : s.exports mode = .ok exports) :
    s.Originates exports.entries :=
  of_foldlM_ok (P := fun exports => s.Originates exports.entries) accepted
    (fun _ _ found => nomatch found) fun _ holds _ member _ one => holds.addItem member one

end Subject

end TypedSvelte.Script
