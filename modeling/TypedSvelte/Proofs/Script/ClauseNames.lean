import TypedSvelte.Proofs.Script.ItemOrder

/-!
# Strings in export clauses

A string that an export clause names something by is known by its place. It has been passed when the
clause has been read, so it ends in the item (`ends_of_moduleItem`).
-/
namespace TypedSvelte.Script

/-- Where the name ends, if it is a string. -/
def ExportName.ends : ExportName → List Nat
  | .ident _ => []
  | .string place => [place.stop]

def ExportSpecifier.ends : ExportSpecifier → List Nat
  | .named source exported _ => source.ends ++ exported.toList.flatMap ExportName.ends
  | .everything => []

/-- Where the strings in an export clause end. -/
def ItemKind.ends : ItemKind → List Nat
  | .exportClause _ _ specifiers => specifiers.flatMap ExportSpecifier.ends
  | .imports _ | .statement _ | .exportDeclaration _ _ | .exportAll | .exportDefault _ _ | .other => []

namespace Reader

variable {α β : Type} {known : List Nat} {reader : Reader α} {next : α → Reader β}

/-- What is known to end in front of the cursor, and what the reader gives, ends where it leaves off
at the latest. -/
def Passes (known : List Nat) (ends : α → List Nat) (reader : Reader α) : Prop :=
  ∀ text context (cursor : Cursor) a last, cursor.Sits text → (∀ n ∈ known, n ≤ cursor.previous) →
    reader.run context cursor = .ok a last → ∀ n ∈ ends a, n ≤ last.previous

theorem passes_bind {ends : β → List Nat} (inner : α → List Nat) (first : reader.Passes known inner)
    (rest : ∀ a, (next a).Passes (inner a ++ known) ends) : (reader >>= next).Passes known ends := by
  intro text _ _ _ _ here passed read
  obtain ⟨a, between, given, read⟩ := run_bind read
  have onward := (leads_of_run given).sits here
  refine rest a text _ _ _ _ onward.1 (List.forall_mem_append.2 ⟨?_, ?_⟩) read
  · exact first text _ _ _ _ here passed given
  · exact fun n old => Nat.le_trans (passed n old) onward.2.2

/-- A reader that gives nothing of the kind. -/
theorem passes_of_last {ends : β → List Nat} (rest : ∀ a, (next a).Passes known ends) :
    (reader >>= next).Passes known ends :=
  passes_bind (fun _ => []) (fun _ _ _ _ _ _ _ _ => List.forall_mem_nil _) rest

theorem passes_pure {ends : α → List Nat} {a : α} (old : ∀ n ∈ ends a, n ∈ known) :
    (Pure.pure a : Reader α).Passes known ends := by
  intro _ _ _ _ _ _ passed read
  obtain ⟨rfl, rfl⟩ := run_pure.1 read
  exact fun n member => passed n (old n member)

theorem passes_fail {ends : α → List Nat} : (fail : Reader α).Passes known ends := by
  intro _ _ _ _ _ _ _ read
  exact (yields_of_fail (P := fun _ => False) _ _ _ _ read).elim

theorem Passes.mono {ends : α → List Nat} (passes : reader.Passes [] ends) :
    reader.Passes known ends :=
  fun text context cursor a last here _ => passes text context cursor a last here (List.forall_mem_nil _)

theorem passes_collectUpTo {ends : α → List Nat} {step : Reader (Option α)}
    (each : step.Passes [] fun a? => a?.toList.flatMap ends) (limit : Nat) :
    (collectUpTo step limit).Passes known (·.flatMap ends) := by
  induction limit generalizing known with
  | zero => exact passes_pure (List.forall_mem_nil _)
  | succ limit ih =>
    refine passes_bind _ each.mono fun a? => ?_
    split
    · refine passes_bind _ ih fun others => passes_pure ?_
      simp only [List.flatMap_cons, Option.toList_some, List.flatMap_nil, List.append_nil]
      grind
    · exact passes_pure (List.forall_mem_nil _)

theorem passes_commaList {ends : α → List Nat} {close : String} (each : reader.Passes [] ends) :
    (commaList close reader).Passes known (·.flatMap ends) := by
  have step : (do
      if ← atPunct close then return none
      let a ← reader
      if ← atPunct close then return some (a, none)
      let comma ← here
      expect ","
      return some (a, some comma) : Reader (Option (α × Option Nat))).Passes []
        fun a? => a?.toList.flatMap fun a => ends a.1 := by
    refine passes_of_last fun closed => ?_
    split
    · exact passes_pure (List.forall_mem_nil _)
    refine passes_bind _ each fun a => passes_of_last fun closed => ?_
    split
    · exact passes_pure (by simp)
    · exact passes_of_last fun comma => passes_of_last fun _ => passes_pure (by simp)
  refine passes_bind (fun list => list.1.flatMap ends) ?_ fun list => passes_pure ?_
  · refine passes_bind _ (passes_collectUpTo step plenty) fun items => passes_of_last fun _ =>
      passes_pure ?_
    rw [List.flatMap_map]
    exact fun n member => List.mem_append_left known member
  · exact fun n member => List.mem_append_left known member

end Reader

namespace Grammar

open Reader

variable {g : Grammar} {known : List Nat} {context : Context} {cursor last : Cursor} {text : List Char}

def ClauseName.ends (n : ClauseName) : List Nat := n.name.ends

def ClausePart.ends (part : ClausePart) : List Nat :=
  part.source.ends ++ part.renamed.toList.flatMap ClauseName.ends

private theorem passes_clauseName : clauseName.Passes known ClauseName.ends := by
  intro text _ cursor _ _ here _ read
  obtain ⟨t, same, isNext, read⟩ := run_bind read
  cases isNext
  split at read
  · obtain ⟨_, _, _, read⟩ := run_bind read
    obtain ⟨_, _, _, read⟩ := run_bind read
    obtain ⟨rfl, rfl⟩ := run_pure.1 read
    exact List.forall_mem_nil _
  · obtain ⟨_, _, passed, read⟩ := run_bind read
    obtain ⟨rfl, rfl⟩ := run_pure.1 read
    cases passed
    exact List.forall_mem_singleton.2 (Nat.le_add_right _ _)
  · exact passes_fail text _ _ _ _ here (List.forall_mem_nil _) read

private theorem ends_part (source : ClauseName) (renamed : Option ClauseName) (isTypeOnly : Bool) :
    (ClausePart.mk source renamed isTypeOnly).ends =
      source.ends ++ (renamed.map ClauseName.ends).getD [] := by
  cases renamed <;> simp [ClausePart.ends]

private theorem passes_typeAsPart {type as : ClauseName}
    (before : ∀ n ∈ type.ends ++ as.ends, n ∈ known) :
    (typeAsPart type as clauseName).Passes known ClausePart.ends := by
  unfold typeAsPart
  refine passes_of_last fun isWord => ?_
  split
  · exact passes_pure (by grind [ends_part])
  refine passes_bind _ passes_clauseName fun second => passes_of_last fun isWord => ?_
  split
  · exact passes_bind _ passes_clauseName fun third => passes_pure (by grind [ends_part])
  · exact passes_pure (by grind [ends_part])

private theorem passes_clausePart (isTypeClause : Bool) :
    (clausePart isTypeClause clauseName).Passes known ClausePart.ends := by
  have finish {known : List Nat} {part : ClausePart} (before : ∀ n ∈ part.ends, n ∈ known) : (do
      if ← eatWord "as" then return { part with renamed := some (← clauseName) }
      return part : Reader ClausePart).Passes known ClausePart.ends := by
    refine passes_of_last fun renames => ?_
    split
    · refine passes_bind _ passes_clauseName fun target => passes_pure ?_
      grind [ends_part, ClausePart.ends]
    · exact passes_pure before
  unfold clausePart
  refine passes_bind _ passes_clauseName fun first => passes_of_last fun _ => passes_of_last fun _ => ?_
  dsimp only
  split
  · refine passes_bind _ passes_clauseName fun second => ?_
    split
    · refine passes_bind _ (passes_typeAsPart (by grind)) fun part => passes_of_last fun _ => ?_
      exact passes_pure (by grind)
    · refine passes_of_last fun _ => passes_bind ClausePart.ends (passes_pure ?_) fun part => finish ?_
      · grind [ends_part]
      · grind
  · refine passes_bind ClausePart.ends (passes_pure ?_) fun part => finish ?_
    · grind [ends_part]
    · grind

private theorem passes_exportClause (isTypeOnly : Bool) :
    (exportClause g isTypeOnly).Passes known ItemKind.ends := by
  have specifiers (parts : List ClausePart) :
      (parts.map (·.specifier)).flatMap ExportSpecifier.ends = parts.flatMap ClausePart.ends := by
    rw [List.flatMap_map]
    refine congrArg (List.flatMap · parts) (funext fun part => ?_)
    obtain ⟨source, renamed, _⟩ := part
    cases renamed <;> rfl
  have given {parts : List ClausePart} {known : List Nat} (fromModule : Bool) :
      ∀ n ∈ ItemKind.ends (.exportClause isTypeOnly fromModule (parts.map (·.specifier))),
        n ∈ parts.flatMap ClausePart.ends ++ known :=
    fun n member => List.mem_append_left known (specifiers parts ▸ member)
  unfold exportClause
  refine passes_of_last fun _ => passes_bind _ (passes_commaList (passes_clausePart isTypeOnly))
    fun parts => passes_of_last fun isFrom => ?_
  split
  · exact passes_of_last fun _ => passes_pure (given true)
  · exact passes_of_last fun _ => passes_of_last fun _ => passes_pure (given false)

private theorem passes_exportAll (isTypeOnly : Bool) :
    (exportAll g isTypeOnly).Passes known ItemKind.ends := by
  unfold exportAll
  refine passes_of_last fun _ => passes_of_last fun named => ?_
  split
  · exact passes_of_last fun _ => passes_of_last fun _ => passes_pure (List.forall_mem_nil _)
  · exact passes_of_last fun _ => passes_pure (List.forall_mem_nil _)

private theorem passes_importAlias : importAlias.Passes known ItemKind.ends := by
  unfold importAlias
  refine passes_of_last fun _ => passes_of_last fun _ => passes_of_last fun _ => ?_
  extract_lets later
  have laterPasses (u : Unit) : (later u).Passes known ItemKind.ends :=
    passes_of_last fun _ => passes_pure (List.forall_mem_nil _)
  split
  · refine passes_of_last fun _ => passes_of_last fun _ => passes_of_last fun _ => ?_
    exact passes_of_last fun _ => laterPasses ()
  · exact passes_of_last fun _ => laterPasses ()

private theorem passes_importItem : (importItem g).Passes known ItemKind.ends := by
  unfold importItem
  refine passes_of_last fun _ => passes_of_last fun t => ?_
  split
  · refine passes_of_last fun _ => passes_of_last fun _ => passes_of_last fun _ => ?_
    exact passes_pure (List.forall_mem_nil _)
  refine passes_of_last fun _ => ?_
  extract_lets later
  have laterPasses (head : ImportHead) : (later head).Passes known ItemKind.ends := by
    unfold later
    extract_lets named
    have namedPasses (u : Unit) : (named u).Passes known ItemKind.ends :=
      passes_of_last fun _ => passes_of_last fun _ => passes_pure (List.forall_mem_nil _)
    split
    · refine passes_of_last fun _ => passes_of_last fun _ => ?_
      split
      · exact passes_importAlias
      · refine passes_of_last fun _ => ?_
        split
        · exact namedPasses ()
        · exact passes_of_last fun _ => namedPasses ()
    · exact namedPasses ()
  split
  · exact passes_of_last fun head => laterPasses head
  · exact passes_of_last fun head => laterPasses head

private theorem passes_exportDefault : (exportDefault g).Passes known ItemKind.ends := by
  unfold exportDefault
  refine passes_of_last fun _ => passes_of_last fun t => passes_of_last fun next => ?_
  refine passes_of_last fun typed => ?_
  split
  · exact passes_of_last fun _ => passes_of_last fun _ => passes_pure (List.forall_mem_nil _)
  extract_lets isMarked later
  have laterPasses (u : Unit) : (later u).Passes known ItemKind.ends := by
    refine passes_of_last fun isInterface => ?_
    split
    · exact passes_of_last fun _ => passes_pure (List.forall_mem_nil _)
    refine passes_of_last fun isClass => ?_
    split
    · exact passes_of_last fun _ => passes_pure (List.forall_mem_nil _)
    refine passes_of_last fun isAsync => ?_
    split
    · exact passes_of_last fun _ => passes_of_last fun _ => passes_pure (List.forall_mem_nil _)
    refine passes_of_last fun isFunction => ?_
    split
    · exact passes_of_last fun _ => passes_pure (List.forall_mem_nil _)
    · exact passes_of_last fun _ => passes_of_last fun _ => passes_pure (List.forall_mem_nil _)
  split
  · exact passes_of_last fun _ => passes_of_last fun _ => laterPasses ()
  · exact laterPasses ()

private theorem passes_typedExport? :
    (typedExport? g).Passes known fun kind? => kind?.toList.flatMap ItemKind.ends := by
  unfold typedExport?
  refine passes_of_last fun typed => ?_
  split
  · refine passes_of_last fun isImport => ?_
    split
    · refine passes_of_last fun _ => passes_of_last fun _ => ?_
      extract_lets later
      have laterPasses (u : Unit) :
          (later u).Passes known fun kind? => kind?.toList.flatMap ItemKind.ends :=
        passes_of_last fun _ => passes_bind _ passes_importAlias fun kind =>
          passes_pure (by simp +contextual)
      split
      · exact passes_of_last fun _ => laterPasses ()
      · exact laterPasses ()
    refine passes_of_last fun isAssigned => ?_
    split
    · exact passes_of_last fun _ => passes_of_last fun _ => passes_pure (List.forall_mem_nil _)
    refine passes_of_last fun isGlobal => ?_
    split
    · refine passes_of_last fun _ => passes_of_last fun _ => passes_of_last fun _ => ?_
      exact passes_pure (List.forall_mem_nil _)
    · exact passes_pure (List.forall_mem_nil _)
  · exact passes_pure (List.forall_mem_nil _)

private theorem passes_exportItem : (exportItem g).Passes known ItemKind.ends := by
  unfold exportItem
  refine passes_of_last fun _ => passes_of_last fun start => passes_of_last fun declared => ?_
  split
  · exact passes_pure (List.forall_mem_nil _)
  refine passes_bind _ passes_typedExport? fun kind? => ?_
  split
  · exact passes_pure (by simp +contextual)
  refine passes_of_last fun isTypeOnly => ?_
  extract_lets later
  have laterPasses (known : List Nat) (u : Unit) : (later u).Passes known ItemKind.ends := by
    refine passes_of_last fun isAll => ?_
    split
    · exact passes_exportAll _
    · exact passes_exportClause _
  split
  · refine passes_of_last fun isDefault => ?_
    split
    · exact passes_exportDefault
    refine passes_of_last fun declared => ?_
    split
    · exact passes_pure (List.forall_mem_nil _)
    · exact laterPasses _ ()
  · exact laterPasses _ ()

/-- The strings in an export clause end where the clause does at the latest. -/
theorem ends_of_moduleItem {item : Item} (here : cursor.Sits text)
    (read : (moduleItem g).run context cursor = .ok item last) :
    ∀ n ∈ item.kind.ends, n ≤ last.previous := by
  have finish (start : Nat) (kind : ItemKind) :
      (do return ⟨← spanFrom start, kind⟩ : Reader Item).Passes (kind.ends ++ []) fun item =>
        item.kind.ends :=
    passes_of_last fun _ => passes_pure fun n member => List.mem_append_left [] member
  have passes : (moduleItem g).Passes [] fun item => item.kind.ends := by
    unfold moduleItem
    refine passes_of_last fun start => passes_of_last fun isImport => ?_
    dsimp only
    split
    · exact passes_bind _ passes_importItem (finish start)
    refine passes_of_last fun isExport => ?_
    split
    · exact passes_bind _ passes_exportItem (finish start)
    · exact passes_of_last fun _ =>
        passes_bind ItemKind.ends (passes_pure (List.forall_mem_nil _)) (finish start)
  exact passes text _ _ _ _ here (List.forall_mem_nil _) read

end Grammar

end TypedSvelte.Script
