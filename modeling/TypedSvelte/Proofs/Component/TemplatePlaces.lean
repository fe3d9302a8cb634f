import TypedSvelte.Proofs.Component.Quotations
import TypedSvelte.Proofs.Markup.MarkPlaces
import TypedSvelte.Proofs.Markup.Placement

/-!
# Where a template copies from

The name of a directive is looked up again in the text of the directive, behind its first colon.
It is found inside of the directive (`directiveName_inside`), so a template copies nothing from a
script.
-/
namespace TypedSvelte.Component

open Markup

variable {source : String} {t : Scan}

theorem directiveName_eq {d : Directive} {kind rest : List Char}
    (text : d.span.text source = String.ofList (kind ++ ':' :: rest)) (absent : ':' ∉ kind) :
    directiveName source d = ⟨d.span.start + byteSize kind + 1,
      d.span.start + byteSize kind + 1 + d.name.utf8ByteSize⟩ := by
  unfold directiveName
  rw [text, String.toList_ofList]
  simp only [findText?_char absent, List.take_left]

/-- The text of a directive that was read at a place. -/
theorem text_directive {d : Directive} {u v : Scan} {text : List Char}
    (toU : (Scan.ofSource source).Reaches u) (span : d.span = ⟨u.pos, v.pos⟩)
    (ahead : u.rest = text ++ v.rest) (pos : v.pos = u.pos + byteSize text) :
    d.span.text source = String.ofList text := by
  rw [Span.text, span, toU.slice? ahead pos]
  rfl

theorem directiveName_inside {d : Directive} (between : d.Between (Scan.ofSource source) t) :
    d.span.start ≤ (directiveName source d).start ∧
      (directiveName source d).stop ≤ d.span.stop := by
  obtain ⟨u, v, kind, rest, toU, _, span, ahead, pos, absent, begins⟩ := between
  have room := byteSize_le_of_prefix begins
  rw [byteSize_toList] at room
  rw [directiveName_eq (text_directive toU span ahead pos) absent, span]
  rw [byteSize_append] at pos
  change v.pos = u.pos + (byteSize kind + (1 + byteSize rest)) at pos
  constructor
  · change u.pos ≤ u.pos + byteSize kind + 1
    omega
  · change u.pos + byteSize kind + 1 + d.name.utf8ByteSize ≤ v.pos
    omega

/-- The place holds the name of the directive and stands in it behind the first colon. -/
structure NameAt (source : String) (d : Directive) (place : Span) : Prop where
  text : slice? source place.start place.stop = some d.name
  behind : ∃ kind, slice? source d.span.start place.start = some (kind ++ ":") ∧
    ':' ∉ kind.toList
  inside : place.stop ≤ d.span.stop

theorem nameAt_directiveName {d : Directive} (between : d.Between (Scan.ofSource source) t) :
    NameAt source d (directiveName source d) := by
  obtain ⟨_, inside⟩ := directiveName_inside between
  obtain ⟨u, v, kind, rest, toU, _, span, ahead, pos, absent, ⟨trail, rfl⟩⟩ := between
  have whole := toU.slice? ahead pos
  have spelled : String.ofList (kind ++ ':' :: (d.name.toList ++ trail)) =
      String.ofList kind ++ ":" ++ d.name ++ String.ofList trail := by
    apply String.toList_injective
    simp
  have colon : (String.ofList kind ++ ":").utf8ByteSize = byteSize kind + 1 := by
    rw [String.utf8ByteSize_append, utf8ByteSize_ofList]
    rfl
  have place : directiveName source d =
      ⟨u.pos + (String.ofList kind ++ ":").utf8ByteSize,
        u.pos + ((String.ofList kind ++ ":").utf8ByteSize + d.name.utf8ByteSize)⟩ := by
    rw [directiveName_eq (text_directive toU span ahead pos) absent, span, colon]
    simp only [Nat.add_assoc]
  have name : slice? (String.ofList kind ++ ":" ++ d.name ++ String.ofList trail)
      (String.ofList kind ++ ":").utf8ByteSize
      ((String.ofList kind ++ ":").utf8ByteSize + d.name.utf8ByteSize) = some d.name :=
    (slice?_eq_some_iff _ _ _ _).2 ⟨_, _, rfl, rfl, rfl⟩
  have before : slice? (String.ofList kind ++ ":" ++ d.name ++ String.ofList trail) 0
      (String.ofList kind ++ ":").utf8ByteSize = some (String.ofList kind ++ ":") :=
    (slice?_eq_some_iff _ _ _ _).2
      ⟨"", d.name ++ String.ofList trail, by simp [String.append_assoc], rfl, Nat.zero_add _⟩
  rw [spelled] at whole
  refine ⟨?_, ⟨String.ofList kind, ?_, ?_⟩, inside⟩
  · rw [place]
    exact slice?_slice? whole name
  · rw [place, span]
    exact slice?_slice? whole before
  · rw [String.toList_ofList]
    exact absent

/-- What a mark refers to is a part of the mark. -/
theorem place_inside {mark : Mark} (between : mark.Between (Scan.ofSource source) t) :
    mark.span.start ≤ (place source mark).start ∧ (place source mark).stop ≤ mark.span.stop := by
  cases mark with
  | expression e => exact ⟨Nat.le_refl _, Nat.le_refl _⟩
  | directive d => exact directiveName_inside between

/-- A template copies nothing from a script. -/
theorem quotes_template_apart {script : Markup.Script}
    (kept : (parse source).document.moduleScript = some script ∨
      (parse source).document.instanceScript = some script) :
    Quotes (·.Apart script.extent) (templatePieces source (parse source).document.fragment) := by
  apply quotes_templatePieces
  intro mark member
  obtain ⟨between, apart⟩ := apart_of_mem_marks member kept
  obtain ⟨low, high⟩ := place_inside between
  rcases apart with before | behind
  · exact Or.inl (Nat.le_trans high before)
  · exact Or.inr (Nat.le_trans behind low)

end TypedSvelte.Component
