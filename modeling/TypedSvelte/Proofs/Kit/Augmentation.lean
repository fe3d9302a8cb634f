import TypedSvelte.Proofs.Kit.Annotation
import TypedSvelte.Proofs.Position.LedgerText

/-!
# Typing special files

Applying the rules of a file is a loop that may be refused a text at each step. It never is: each
local name is typed once, its texts lie in the head of its declaration, and the heads of different
declarations are disjoint. `Accounts` is the invariant of the loop. So the only errors are those of
reading the exports, and the output is the source with the texts of some locals inserted
(`augment_types_once`).
-/
namespace TypedSvelte.Kit

open Script

/-- A script with its exports, and the rules that they are typed by. -/
structure Reading where
  subject : Subject
  exports : Exports
  rules : List Rule

namespace Reading

/-- The outline is accurate, and all exports come from it. -/
structure Sound (r : Reading) : Prop where
  accurate : r.subject.outline.Accurate r.subject.source
  originates : r.subject.Originates r.exports.entries

/-- `entries` are what the rule inserts for an export of the local name that has no type. -/
structure Asks (r : Reading) (rule : Rule) (localName : String) (entries : List Ledger.Entry) :
    Prop where
  member : rule ∈ r.rules
  exported : ∃ entry, r.exports.entries.get? rule.name = some entry ∧
    entry.localName = localName ∧ entry.hasExplicitType = false ∧
    entries = entriesFor r.subject.source rule.typing entry.shape
  filled : entries ≠ []

/-- The head of a declaration of the local name holds what a rule inserts. -/
structure Types (r : Reading) (localName : String) (entries : List Ledger.Entry) : Prop where
  asked : ∃ rule, r.Asks rule localName entries
  declared : ∃ item ∈ r.subject.outline.items, ∃ bound, (localName, bound) ∈ item.bound ∧
    ∃ head, bound.head? = some head ∧ head.Inside item.span ∧
      Tailored r.subject.source head entries

/-- The ledger holds the texts of the locals that have been typed, and nothing else. -/
structure Accounts (r : Reading) (progress : Progress)
    (locals : List (String × List Ledger.Entry)) : Prop where
  names : locals.map (·.1) = progress.annotated
  once : progress.annotated.Nodup
  entries : progress.ledger.entries.Perm (locals.flatMap (·.2))
  increasing : Ledger.Increasing progress.ledger.entries
  types : ∀ l ∈ locals, r.Types l.1 l.2

variable {r : Reading} {progress : Progress} {locals : List (String × List Ledger.Entry)}

theorem Asks.types (sound : r.Sound) {rule : Rule} {name : String} {entries : List Ledger.Entry}
    (asks : r.Asks rule name entries) : r.Types name entries := by
  refine ⟨⟨rule, asks⟩, ?_⟩
  obtain ⟨_, ⟨entry, found, rfl, _, rfl⟩, filled⟩ := asks
  rcases sound.originates rule.name entry found with free | ⟨item, inScript, bound, declares, same⟩
  · refine absurd ?_ filled
    rw [free]
    cases rule.typing <;> rfl
  · have shape : entry.shape = (bound.shape r.subject.source).1 := by
      rw [same, Subject.boundEntry_shape]
    have isAccurate := sound.accurate.declarations item inScript _ declares
    rw [shape] at filled ⊢
    rcases tailored_entriesFor declares isAccurate rule.typing with none | ⟨head, isHead, tailored⟩
    · exact absurd none filled
    · exact ⟨item, inScript, bound, declares, head, isHead, isAccurate.head head isHead, tailored⟩

/-- The texts of different locals have different positions. -/
theorem Types.position_ne (sound : r.Sound) {a b : String} {aEntries bEntries : List Ledger.Entry}
    (aTypes : r.Types a aEntries) (bTypes : r.Types b bEntries) (differ : a ≠ b)
    {e f : Ledger.Entry} (eMember : e ∈ aEntries) (fMember : f ∈ bEntries) :
    e.position ≠ f.position := by
  obtain ⟨aItem, aInScript, _, aDeclares, aHead, aIsHead, _, aTailored⟩ := aTypes.declared
  obtain ⟨bItem, bInScript, _, bDeclares, bHead, bIsHead, _, bTailored⟩ := bTypes.declared
  have eFits := aTailored.fits e eMember
  have fFits := bTailored.fits f fMember
  have eRange : aHead.start < e.position ∧ e.position ≤ aHead.stop := ⟨eFits.above, eFits.within⟩
  have fRange : bHead.start < f.position ∧ f.position ≤ bHead.stop := ⟨fFits.above, fFits.within⟩
  rcases sound.accurate.apart (mem_heads aInScript aDeclares aIsHead)
    (mem_heads bInScript bDeclares bIsHead) differ with before | behind
  · have order : aHead.stop ≤ bHead.start := before
    omega
  · have order : bHead.stop ≤ aHead.start := behind
    omega

/-- A local that has not been typed can be. -/
theorem Accounts.step (sound : r.Sound) (accounts : r.Accounts progress locals) {name : String}
    (fresh : name ∉ progress.annotated) {added : List Ledger.Entry} (types : r.Types name added) :
    ∃ ledger, Ledger.insertAll added progress.ledger = .ok ledger ∧
      progress.ledger.size < ledger.size ∧
      r.Accounts ⟨ledger, name :: progress.annotated⟩ ((name, added) :: locals) := by
  obtain ⟨_, _, _, _, _, _, _, tailored⟩ := types.declared
  have free : ∀ e ∈ added, ∀ old ∈ progress.ledger.entries, old.position ≠ e.position := by
    intro e member old recorded
    obtain ⟨l, inLocals, inTexts⟩ := List.mem_flatMap.1 (accounts.entries.mem_iff.1 recorded)
    have known : l.1 ∈ progress.annotated := accounts.names ▸ List.mem_map_of_mem inLocals
    have differ : l.1 ≠ name := fun same => fresh (same ▸ known)
    exact (accounts.types l inLocals).position_ne sound types differ inTexts member
  obtain ⟨ledger, recorded, same, increasing⟩ := Ledger.exists_insertAll tailored.ordered.distinct
    (fun e member => (tailored.fits e member).filled) accounts.increasing free
  refine ⟨ledger, recorded, ?_, ?_⟩
  · obtain ⟨rule, asks⟩ := types.asked
    have lengths : ledger.entries.length = added.length + progress.ledger.entries.length := by
      rw [same.length_eq, List.length_append]
    have some : 0 < added.length := List.length_pos_iff.2 asks.filled
    change progress.ledger.entries.length < ledger.entries.length
    omega
  · exact {
      names := congrArg (name :: ·) accounts.names
      once := List.nodup_cons.2 ⟨fresh, accounts.once⟩
      entries := same.trans (accounts.entries.append_left added)
      increasing := increasing
      types := List.forall_mem_cons.2 ⟨types, accounts.types⟩ }

/-- The local that the rule asks for has been typed. -/
def Settles (r : Reading) (rule : Rule) (progress : Progress) : Prop :=
  ∀ name entries, r.Asks rule name entries → name ∈ progress.annotated

private theorem Asks.of_found {rule : Rule} {name : String} {entries : List Ledger.Entry}
    (asks : r.Asks rule name entries) {entry : ExportEntry}
    (found : r.exports.entries.get? rule.name = some entry) :
    name = entry.localName ∧ entry.hasExplicitType = false ∧
      entriesFor r.subject.source rule.typing entry.shape ≠ [] := by
  obtain ⟨_, ⟨other, isOther, rfl, untyped, rfl⟩, filled⟩ := asks
  cases Option.some.inj (isOther.symm.trans found)
  exact ⟨rfl, untyped, filled⟩

/-- No rule is refused its texts. -/
theorem exists_applyRule (sound : r.Sound) (accounts : ∃ locals, r.Accounts progress locals)
    {rule : Rule} (member : rule ∈ r.rules) :
    ∃ next, applyRule r.subject.source r.exports progress rule = .ok next ∧
      (∃ locals, r.Accounts next locals) ∧ r.Settles rule next ∧
      ∀ other, r.Settles other progress → r.Settles other next := by
  have unchanged (settled : r.Settles rule progress) :
      (∃ locals, r.Accounts progress locals) ∧ r.Settles rule progress ∧
        ∀ other, r.Settles other progress → r.Settles other progress :=
    ⟨accounts, settled, fun _ before => before⟩
  unfold applyRule
  split
  · rename_i missing
    refine ⟨progress, rfl, unchanged ?_⟩
    rintro name entries ⟨_, ⟨entry, found, _⟩, _⟩
    cases missing.symm.trans found
  · rename_i entry found
    split
    · rename_i settled
      refine ⟨progress, rfl, unchanged ?_⟩
      intro name entries asks
      obtain ⟨rfl, untyped, _⟩ := asks.of_found found
      simpa [untyped] using settled
    · rename_i unsettled
      simp only [Bool.or_eq_true, List.contains_iff_mem, not_or, Bool.not_eq_true] at unsettled
      obtain ⟨untyped, fresh⟩ := unsettled
      rw [annotate_eq]
      by_cases empty : entriesFor r.subject.source rule.typing entry.shape = []
      · refine ⟨progress, ?_, unchanged ?_⟩
        · rw [empty]
          exact if_neg (Nat.lt_irrefl _)
        · intro name entries asks
          exact absurd empty (asks.of_found found).2.2
      · have asks : r.Asks rule entry.localName _ :=
          ⟨member, ⟨entry, found, rfl, untyped, rfl⟩, empty⟩
        obtain ⟨locals, accounts⟩ := accounts
        obtain ⟨ledger, recorded, grown, accounted⟩ := accounts.step sound fresh (asks.types sound)
        refine ⟨_, ?_, ⟨_, accounted⟩, ?_, ?_⟩
        · rw [recorded]
          exact if_pos grown
        · intro name entries asks
          obtain ⟨rfl, _⟩ := asks.of_found found
          exact List.mem_cons_self
        · intro other before name entries asked
          exact List.mem_cons_of_mem _ (before name entries asked)

private theorem exists_insertions (sound : r.Sound) {kind : FileKind} (rules : kind.rules = r.rules) :
    ∃ progress, insertions kind r.subject.source r.exports = .ok progress.ledger ∧
      (∃ locals, r.Accounts progress locals) ∧ ∀ rule ∈ r.rules, r.Settles rule progress := by
  have start : ∃ locals, r.Accounts ⟨.empty, []⟩ locals :=
    ⟨[], rfl, .nil, .refl _, .nil, nofun⟩
  obtain ⟨progress, applied, accounts, settled, _⟩ :=
    exists_foldlM_ok (P := fun progress => ∃ locals, r.Accounts progress locals) (Q := r.Settles)
      start fun _ accounts rule member => exists_applyRule sound accounts member
  refine ⟨progress, ?_, accounts, settled⟩
  rw [insertions, rules, applied]
  rfl

/-- The output is the source with the texts of some locals inserted. -/
structure Augments (r : Reading) (out : Augmented) : Prop where
  filled : out.ledger.entries ≠ []
  cuts : ∀ entry ∈ out.ledger.entries, IsCut r.subject.source entry.position
  deletion : bytesOutside (out.ledger.insertions.map Insertion.span) 0 (bytes out.text) =
    bytes r.subject.source
  once : ∃ locals : List (String × List Ledger.Entry), (locals.map (·.1)).Nodup ∧
    out.ledger.entries.Perm (locals.flatMap (·.2)) ∧ (∀ l ∈ locals, r.Types l.1 l.2) ∧
    ∀ rule name entries, r.Asks rule name entries → name ∈ locals.map (·.1)

theorem Accounts.cuts (accounts : r.Accounts progress locals) :
    ∀ entry ∈ progress.ledger.entries, IsCut r.subject.source entry.position := by
  intro entry recorded
  obtain ⟨l, inLocals, inTexts⟩ := List.mem_flatMap.1 (accounts.entries.mem_iff.1 recorded)
  obtain ⟨_, _, _, _, _, _, _, tailored⟩ := (accounts.types l inLocals).declared
  exact (tailored.fits entry inTexts).cut

private theorem Accounts.annotated_eq_nil (accounts : r.Accounts progress locals)
    (empty : progress.ledger.entries = []) : progress.annotated = [] := by
  have none : locals.flatMap (·.2) = [] := List.nil_perm.1 (empty ▸ accounts.entries)
  rw [← accounts.names, List.map_eq_nil_iff, List.eq_nil_iff_forall_not_mem]
  intro l inLocals
  obtain ⟨_, asks⟩ := (accounts.types l inLocals).asked
  exact asks.filled (List.flatMap_eq_nil_iff.1 none l inLocals)

/-- What has been accounted for is assembled. -/
theorem Accounts.exists_text (accounts : r.Accounts progress locals)
    (settled : ∀ rule ∈ r.rules, r.Settles rule progress)
    (filled : progress.ledger.entries ≠ []) (kind : FileKind) :
    ∃ text, progress.ledger.assemble? r.subject.source = some text ∧
      r.Augments ⟨kind, text, progress.ledger⟩ := by
  obtain ⟨text, assembled, woven⟩ := Ledger.exists_weave "" r.subject.source
    String.empty_append.symm accounts.increasing (fun _ _ => Nat.zero_le _) accounts.cuts
  refine ⟨text, assembled, filled, accounts.cuts, ?_, ?_⟩
  · exact (Ledger.assembled_of_woven accounts.increasing woven).deletion
  · refine ⟨locals, accounts.names ▸ accounts.once, accounts.entries, accounts.types, ?_⟩
    intro rule name entries asks
    rw [accounts.names]
    exact settled rule asks.member name entries asks

end Reading

/-- The module at a path, with the rules for its kind. -/
structure Reading.Reads (path : FilePath) (places : KitPaths) (source : String) (kind : FileKind)
    (r : Reading) : Prop where
  classified : classify? path places = some kind
  rules : r.rules = kind.rules
  text : r.subject.source = source
  typed : r.subject.typed = (path.extension? == some "ts")
  outline : Script.parse r.subject.typed source = .ok r.subject.outline
  exports : r.subject.exports .standalone = .ok r.exports

section

variable {path : FilePath} {places : KitPaths} {source : String} {kind : FileKind} {r : Reading}

/-- The source of a module that has been read is assembled with the insertions. -/
theorem Reading.Reads.augment_eq (reads : r.Reads path places source kind) {ledger : Ledger}
    (recorded : insertions kind source r.exports = .ok ledger) :
    augment path source places =
      if ledger.isEmpty then .ok none
      else match ledger.assemble? source with
        | some text => .ok (some ⟨kind, text, ledger⟩)
        | none => .error .brokenCharacter := by
  obtain ⟨classified, _, rfl, typed, outline, exports⟩ := reads
  unfold augment
  rw [classified]
  dsimp only
  rw [← typed, outline]
  dsimp only
  rw [exports]
  change (do
    let ledger ← (insertions kind r.subject.source r.exports).mapError
      (Interruption.refused ∘ TransformError.ledger)
    _) = _
  rw [recorded]
  rfl

/-- A module that has been read has an output, unless there is nothing to be typed. -/
theorem Reading.Reads.outcome (reads : r.Reads path places source kind)
    (accurate : r.subject.outline.Accurate source) :
    (augment path source places = .ok none ∧ ∀ rule name entries, ¬ r.Asks rule name entries) ∨
      ∃ out, augment path source places = .ok (some out) ∧ out.kind = kind ∧ r.Augments out := by
  have sound : r.Sound := ⟨reads.text ▸ accurate, Subject.origin_of_exports reads.exports⟩
  obtain ⟨progress, recorded, ⟨locals, accounts⟩, settled⟩ :=
    r.exists_insertions sound reads.rules.symm
  rw [reads.text] at recorded
  rw [reads.augment_eq recorded]
  by_cases empty : progress.ledger.entries = []
  · refine Or.inl ⟨if_pos (Ledger.isEmpty_iff.2 empty), ?_⟩
    intro rule name entries asks
    have typed := settled rule asks.member name entries asks
    rw [accounts.annotated_eq_nil empty] at typed
    cases typed
  · obtain ⟨text, assembled, augments⟩ := accounts.exists_text settled empty kind
    rw [reads.text] at assembled
    rw [if_neg (mt Ledger.isEmpty_iff.1 empty), assembled]
    exact Or.inr ⟨_, rfl, rfl, augments⟩

/-- The output is assembled from insertions in order. -/
theorem Reading.Reads.recorded (reads : r.Reads path places source kind)
    (accurate : r.subject.outline.Accurate source) {out : Augmented}
    (given : augment path source places = .ok (some out)) :
    Ledger.Increasing out.ledger.entries ∧ out.ledger.assemble? source = some out.text := by
  have sound : r.Sound := ⟨reads.text ▸ accurate, Subject.origin_of_exports reads.exports⟩
  obtain ⟨progress, recorded, ⟨locals, accounts⟩, -⟩ := r.exists_insertions sound reads.rules.symm
  rw [reads.text] at recorded
  rw [reads.augment_eq recorded] at given
  split at given
  · cases given
  · split at given
    · rename_i text assembled
      cases given
      exact ⟨accounts.increasing, assembled⟩
    · cases given

end

/-- A module that is not read has no output, and only its exports may be refused. -/
theorem augment_cases (path : FilePath) (source : String) (places : KitPaths) :
    augment path source places = .ok none ∨
      (∃ fault offset, augment path source places =
        .error (.refused (.structural (.refusedExport fault) offset))) ∨
      ∃ kind r, Reading.Reads path places source kind r := by
  unfold augment
  split
  · exact Or.inl rfl
  · rename_i kind classified
    dsimp only
    split
    · exact Or.inl rfl
    · rename_i outline parsed
      cases exported : (Subject.mk outline source (path.extension? == some "ts")).exports
        .standalone with
      | error refused => exact Or.inr (Or.inl ⟨refused.fault, 0 + refused.offset, rfl⟩)
      | ok exports =>
        exact Or.inr (Or.inr ⟨kind, ⟨⟨outline, source, _⟩, exports, kind.rules⟩,
          ⟨classified, rfl, rfl, rfl, parsed, exported⟩⟩)

/-- Typing a special file is refused for its exports alone. The output is the source with texts
inserted, and these type exports that had no type, in their declarations and once for each local.
There is none only where nothing is to be typed. The outline need only have its declarations in
place. -/
theorem augment_types_once {path : FilePath} {places : KitPaths} {source : String}
    (accurate : ∀ outline, Script.parse (path.extension? == some "ts") source = .ok outline →
      outline.Accurate source) :
    (∀ reason, augment path source places = .error reason →
      ∃ fault offset, reason = .refused (.structural (.refusedExport fault) offset)) ∧
    (∀ out, augment path source places = .ok (some out) →
      ∃ r : Reading, r.Reads path places source out.kind ∧ r.Augments out) ∧
    (augment path source places = .ok none → ∀ kind (r : Reading),
      r.Reads path places source kind → ∀ rule name entries, ¬ r.Asks rule name entries) := by
  have known {kind : FileKind} {r : Reading} (reads : r.Reads path places source kind) :=
    reads.outcome (accurate _ (reads.typed ▸ reads.outline))
  refine ⟨?_, ?_, ?_⟩
  · intro reason failed
    rcases augment_cases path source places with none | refused | ⟨kind, r, reads⟩
    · cases none.symm.trans failed
    · obtain ⟨fault, offset, refused⟩ := refused
      cases refused.symm.trans failed
      exact ⟨fault, offset, rfl⟩
    · rcases known reads with ⟨none, _⟩ | ⟨out, made, _⟩
      · cases none.symm.trans failed
      · cases made.symm.trans failed
  · intro out given
    rcases augment_cases path source places with none | ⟨_, _, refused⟩ | ⟨kind, r, reads⟩
    · cases none.symm.trans given
    · cases refused.symm.trans given
    · rcases known reads with ⟨none, _⟩ | ⟨_, made, rfl, augments⟩
      · cases none.symm.trans given
      · cases made.symm.trans given
        exact ⟨r, reads, augments⟩
  · intro none kind r reads
    rcases known reads with ⟨_, nothing⟩ | ⟨_, made, _⟩
    · exact nothing
    · cases made.symm.trans none

/-- A function that is exported as two handlers is typed for the first one alone. -/
theorem augment_types_once_shared :
    let path := FilePath.ofText "src/routes/+server.ts"
    let source := "function f(e) {} export {f as GET, f as POST};"
    ∃ out, augment path source .standard = .ok (some out) ∧
      out.ledger.entries.map (·.position) = [12, 13] ∧
      ∃ r : Reading, r.Reads path .standard source out.kind ∧ r.Augments out := by
  intro path source
  have typed : (augment path source .standard).toOption.any (fun out =>
      out.any fun out => out.ledger.entries.map (·.position) == [12, 13]) = true := by
    decide +kernel
  have placed : (Script.parse (path.extension? == some "ts") source).toOption.all (fun outline =>
      decide (outline.Accurate source)) = true := by
    decide +kernel
  obtain ⟨_, made, check⟩ := exists_ok_of_check typed
  obtain ⟨out, rfl, positions⟩ := (Option.any_eq_true _ _).1 check
  have accurate (outline : Outline)
      (parsed : Script.parse (path.extension? == some "ts") source = .ok outline) :
      outline.Accurate source := by
    rw [parsed] at placed
    exact of_decide_eq_true placed
  exact ⟨out, made, eq_of_beq positions, (augment_types_once accurate).2.1 out made⟩

end TypedSvelte.Kit
