import TypedSvelte.Proofs.Kit.RecordedOffsets
import TypedSvelte.Proofs.Position.LedgerText
import TypedSvelte.Proofs.Script.ExportPlaces

/-!
# Ledgers stay in their source

Whatever the script is, the texts that type its exports are recorded within the source or at the end
of it (`Records.le`). So typing a special file points into the source when it is refused
(`augment_fails`), and when it succeeds the output is the source with these texts inserted
(`assembled_of_augment`).
-/
namespace TypedSvelte.Kit

open Script

variable {source : String} {size : Nat}

private theorem paramEnd_le {p : Pattern} (within : Within size p) : paramEnd source p ≤ size := by
  have span := Pattern.within_span within
  rcases paramEnd_cases source p with ⟨target, defaulted, same⟩ | same | ⟨same, _⟩
  · cases p with
    | withDefault place other =>
      cases defaulted
      rw [same]
      exact (Pattern.within_span (Pattern.within_withDefault.1 within).2).2
    | _ => cases defaulted
  · rw [same]
    exact span.2
  · rw [same]
    exact Nat.le_trans (Nat.sub_le _ _) span.2

private theorem functionEntries_le {shape : FunctionShape} (within : Within size shape) (isArrow : Bool)
    (param result : String) :
    ∀ e ∈ functionEntries source (.ofShape source shape isArrow) param result,
      e.position ≤ size := by
  obtain ⟨_, params, body⟩ := within
  unfold functionEntries
  dsimp only [FunctionExport.ofShape]
  rcases single : shape.params with _ | ⟨p, _ | ⟨_, _⟩⟩
  · nofun
  · have ofParam : Within size p := params p (single ▸ List.mem_cons_self)
    have atParam : paramEnd source p ≤ size := paramEnd_le ofParam
    dsimp only
    split
    · exact List.forall_mem_cons.2 ⟨(Pattern.within_span ofParam).1,
        List.forall_mem_singleton.2 atParam⟩
    · refine List.forall_mem_cons.2 ⟨atParam, ?_⟩
      split
      · nofun
      · rename_i type close _ found
        have before : close < shape.bodyStart := (range_of_paramsClose? single found).2.1
        exact List.forall_mem_singleton.2 (Nat.le_trans before body)
      · exact List.forall_mem_singleton.2 body
  · nofun

/-- The texts for an export are recorded where the export lies. -/
theorem entriesFor_le {bound : Bound} (within : Within size bound) (typing : Typing) :
    ∀ e ∈ entriesFor source typing (bound.shape source).1, e.position ≤ size := by
  rcases bound with shape | d | isTyped | _
  · rcases typing with ⟨param, result⟩ | type
    · exact functionEntries_le within false param result
    · nofun
  · have ofDeclarator := Bound.within_variable.1 within
    rcases shape_variable_cases source d with ⟨shape, isArrow, isFunction, same⟩ | ⟨_, same⟩
    · rw [same]
      rcases typing with ⟨param, result⟩ | type
      · have ofShape := Declarator.within_function? ofDeclarator isFunction
        exact functionEntries_le ofShape isArrow param result
      · nofun
    · rw [same]
      rcases typing with ⟨param, result⟩ | type
      · nofun
      · unfold entriesFor
        dsimp only
        cases d.initial with
        | none => nofun
        | some value =>
          cases named : d.place? with
          | none => nofun
          | some place =>
            have ofPlace := Declarator.within_place? ofDeclarator named
            exact List.forall_mem_singleton.2 ofPlace.2
  · cases typing <;> nofun
  · cases typing <;> nofun

section

variable {path : FilePath} {places : KitPaths} {kind : FileKind} {r : Reading}

private theorem Reading.Reads.entriesFor_le (reads : r.Reads path places source kind) {name : String}
    {entry : ExportEntry} (found : r.exports.entries.get? name = some entry) (typing : Typing) :
    ∀ e ∈ entriesFor source typing entry.shape, e.position ≤ source.utf8ByteSize := by
  rcases Subject.origin_of_exports reads.exports name entry found with
    free | ⟨item, inScript, bound, declares, same⟩
  · rw [free]
    cases typing <;> nofun
  · rw [same, Subject.boundEntry_shape, reads.text]
    have ofItem := within_of_parse reads.outline item inScript
    exact Kit.entriesFor_le (Item.within_bound ofItem declares) typing

/-- Texts are recorded within the source, or at the end of it. -/
theorem Records.le {offset : Nat} (recorded : Records path places source offset) :
    offset ≤ source.utf8ByteSize := by
  obtain ⟨kind, r, ledger, reads, made, member⟩ := recorded
  obtain ⟨e, inLedger, rfl⟩ := List.mem_map.1 member
  obtain ⟨name, typing, entry, found, inEntries⟩ := (typed_of_insertions made).exported e inLedger
  exact reads.entriesFor_le found typing e inEntries

/-- A text is refused within the source, or at the end of it. -/
theorem Reading.Reads.insertions_fail (reads : r.Reads path places source kind) :
    FailsWith (fun error => ∃ offset ≤ source.utf8ByteSize, error = .duplicatePosition offset)
      (insertions kind source r.exports) := by
  refine FailsWith.map (failsWith_foldlM (fun progress rule _ => ?_) _) _
  unfold applyRule
  split
  · exact failsWith_ok _
  · rename_i entry found
    split
    · exact failsWith_ok _
    · refine FailsWith.bind (fun error refused => ?_) fun ledger _ => ?_
      · rw [annotate_eq] at refused
        obtain ⟨e, member, rfl⟩ := Ledger.insertAll_fails _ _ error refused
        exact ⟨e.position, reads.entriesFor_le found rule.typing e member, rfl⟩
      · split <;> exact failsWith_ok _

/-- A special file is refused for what stands in the source, or at the end of it. -/
theorem augment_fails (path : FilePath) (source : String) (places : KitPaths) :
    FailsWith (fun reason => ∀ error, reason = .refused error →
        ∀ offset ∈ error.offset?, offset ≤ source.utf8ByteSize)
      (augment path source places) := by
  unfold augment
  split
  · exact failsWith_ok _
  · rename_i kind classified
    dsimp only
    split
    · exact failsWith_ok _
    · rename_i outline parsed
      have inside := within_of_parse parsed
      refine FailsWith.bind (.mapError fun error refused => ?_) fun exports accepted => ?_
      · rintro _ ⟨⟩ _ ⟨⟩
        rw [Nat.zero_add]
        exact Subject.exports_fail inside error refused
      · have reads : Reading.Reads path places source kind
            ⟨⟨outline, source, path.extension? == some "ts"⟩, exports, kind.rules⟩ :=
          ⟨classified, rfl, rfl, rfl, parsed, eq_ok_of_mapError accepted⟩
        refine FailsWith.bind (.mapError fun error refused => ?_) fun ledger _ => ?_
        · obtain ⟨offset, bound, rfl⟩ := reads.insertions_fail error refused
          rintro _ ⟨⟩ _ ⟨⟩
          exact bound
        · split
          · exact failsWith_ok _
          · split
            · exact failsWith_ok _
            · exact failsWith_error nofun

/-- An output is the source with the texts of its ledger inserted. -/
theorem assembled_of_augment {out : Augmented}
    (made : augment path source places = .ok (some out)) :
    Ledger.Increasing out.ledger.entries ∧
      (∀ e ∈ out.ledger.entries, e.position ≤ source.utf8ByteSize) ∧
      Ledger.Assembled out.ledger source out.text := by
  rcases augment_cases path source places with none | ⟨_, _, refused⟩ | ⟨kind, r, reads⟩
  · cases none.symm.trans made
  · cases refused.symm.trans made
  · cases recorded : insertions kind source r.exports with
    | error refused => cases (reads.augment_ledger recorded).symm.trans made
    | ok ledger =>
      have increasing := (typed_of_insertions recorded).increasing
      have inside : ∀ e ∈ ledger.entries, e.position ≤ source.utf8ByteSize := fun e member =>
        Records.le ⟨kind, r, ledger, reads, recorded, List.mem_map_of_mem member⟩
      rw [reads.augment_eq recorded] at made
      split at made
      · cases made
      · split at made
        · rename_i text assembled
          cases made
          have cuts : ∀ e ∈ ledger.entries, IsCut source e.position := by
            intro e member
            have cut := Ledger.cuts_of_weave assembled e member
            rwa [Nat.min_eq_left (inside e member)] at cut
          obtain ⟨out, again, woven⟩ := Ledger.exists_weave "" source String.empty_append.symm
            increasing (fun _ _ => Nat.zero_le _) cuts
          cases assembled.symm.trans again
          exact ⟨increasing, inside, Ledger.assembled_of_woven increasing woven⟩
        · cases made

end

end TypedSvelte.Kit
