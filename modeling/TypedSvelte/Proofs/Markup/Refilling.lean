import TypedSvelte.Proofs.Markup.Agreement
import TypedSvelte.Proofs.Markup.Fillers
import TypedSvelte.Proofs.Markup.MarkPlaces

/-!
# Steps that read fillers

The step that reads a filler does not look into it (`Writes.overlooks`): with other text in its place
the pass comes by a reading that differs only in the offsets behind the filler and in the filler.
-/
namespace TypedSvelte.Markup

open Scan

namespace Scan

variable {s : Scan} {data after new : List Char} {m : Nat}

private theorem skip_past (ahead : s.rest = data ++ after) : s.skip (data.length + m) =
    ⟨s.pos + byteSize data + byteSize (after.take m), after.drop m, s.errors⟩ := by
  unfold skip
  rw [ahead, List.take_length_add_append, List.drop_length_add_append, byteSize_append,
    Nat.add_assoc]

theorem pos_skip_past (ahead : s.rest = data ++ after) :
    (s.skip data.length).pos = s.pos + byteSize data :=
  congrArg pos (skip_past (m := 0) ahead)

/-- Where an offset is with `new` in the place of the characters `data` ahead. -/
def displace (s : Scan) (data new : List Char) : Nat → Nat :=
  Span.displace ⟨s.pos, s.pos + byteSize data⟩ (byteSize new)

private theorem agree_displace (s : Scan) (data new : List Char) : AgreeUpTo s.pos id (s.displace data new) :=
  fun _ before => (Span.displace_of_le before).symm

/-- With other text in front, what is passed ends at the displaced place. -/
theorem moved_past (ahead : s.rest = data ++ after)
    (passes : 0 < byteSize data + byteSize (after.take m)) :
    ((Scan.mk s.pos (new ++ after) s.errors).skip (new.length + m)).pos =
      s.displace data new (s.skip (data.length + m)).pos := by
  unfold displace
  rw [skip_past ahead, skip_past rfl, Span.displace_of_gt (by dsimp only; omega)]
  dsimp only
  omega

private theorem moved_past_scan (ahead : s.rest = data ++ after) (accepted : s.errors = [])
    (passes : 0 < byteSize data + byteSize (after.take m)) :
    ((Scan.mk s.pos (new ++ after) s.errors).skip (new.length + m)).moved id =
      (s.skip (data.length + m)).moved (s.displace data new) := by
  unfold Scan.moved
  rw [moved_past ahead passes, skip_past ahead, skip_past rfl, accepted]
  rfl

private theorem swap_all (s : Scan) (tail : List Char) :
    s.swap s.rest.length tail = ⟨s.pos, tail, s.errors⟩ := by
  have whole := @swapEnd_append tail s.rest []
  unfold swap
  rw [show swapEnd s.rest.length tail s.rest = tail from whole]

end Scan

namespace Reading

variable {source : String} {r next : Reading} {data after new : List Char} {hole : Nat}
  {filler : Filler}

/-- From `opened` on the step reads the characters `data` without looking into them. With `new` in
their place it leads to a reading that differs in the offsets behind them and in what begins at the
hole. -/
structure Overlooks (r next : Reading) (opened : Scan) (data after new : List Char) (hole : Nat) :
    Prop where
  reached : r.scan.Reaches opened
  ahead : opened.rest = data ++ after
  filled : opened.rest ≠ []
  moves : r.Moves next
  behind : max (opened.pos + 1) (opened.pos + byteSize data) ≤ next.scan.pos
  marks : ∀ mark ∈ next.marks, mark ∈ r.marks ∨ mark.Between r.scan opened
  begins : hole ≤ opened.pos
  ends : EndsText r.scan.rest → EndsText (r.scan.swap opened.rest.length (new ++ after)).rest
  again : ∃ other, (r.swap opened.rest.length (new ++ after)).Takes other ∧
    hole < other.scan.pos ∧ other.moved id hole = next.moved (opened.displace data new) hole

theorem exists_split {text : List Char} {n : Nat} (bound : n ≤ text.length) :
    ∃ data after, text = data ++ after ∧ data.length = n :=
  ⟨text.take n, text.drop n, (List.take_append_drop n text).symm, List.length_take_of_le bound⟩

private theorem textLength_le (text : List Char) : textLength text ≤ text.length := by
  induction text with
  | nil => exact Nat.le_refl _
  | cons c rest ih =>
    rw [textLength_cons, List.length_cons]
    split
    · exact Nat.zero_le _
    · exact Nat.succ_le_succ ih

private theorem readText_of_ahead {c : Char} {rest : List Char} (ahead : r.scan.rest = c :: rest) :
    r.readText = r.add (r.scan.skip (textLength rest + 1))
      (.text (r.scan.rawText (textLength rest + 1))) := by
  have behind : r.scan.rest.tail = rest := by
    rw [ahead]
    rfl
  unfold readText
  rw [behind]

/-- What begins at the hole is left out, whatever it is. -/
theorem filled_of_eq {move : Nat → Nat} {t : RawText} (here : t.span.start = hole) :
    t.filled move hole = ⟨Span.empty 0, ""⟩ := if_pos here

private theorem filled_rawText {move : Nat → Nat} {s : Scan} {n : Nat} (here : s.pos = hole) :
    (s.rawText n).filled move hole = ⟨Span.empty 0, ""⟩ := filled_of_eq here

private theorem moved_text {move : Nat → Nat} {t : RawText} (here : t.span.start = hole) :
    (Node.text t).moved move hole = .text ⟨Span.empty 0, ""⟩ :=
  congrArg Node.text (filled_of_eq here)

private theorem moved_comment {move : Nat → Nat} {c : RawText} (here : c.span.start = hole) :
    (Node.comment c).moved move hole = .comment ⟨Span.empty 0, ""⟩ :=
  congrArg Node.comment (filled_of_eq here)

section

variable (placed : r.Placed source) (accepted : r.scan.errors = [])

include placed accepted

/-- What has been read before keeps its offsets. -/
theorem moved_before {opened : Scan} (reached : r.scan.Reaches opened) (data new : List Char) :
    r.moved id hole = r.moved (opened.displace data new) hole :=
  Reading.moved_congr placed accepted ((opened.agree_displace data new).mono reached.pos_le)

private theorem overlooks_text {c : Char} {rest : List Char} (ahead : r.scan.rest = c :: rest)
    (goesOn : (c == '{' || (c == '<' && opensTag rest)) = false) (filled : new ≠ [])
    (plain : ∀ d ∈ new, d ≠ '<' ∧ d ≠ '{') :
    ∃ data after, Overlooks r r.readText r.scan data after new r.scan.pos ∧
      (r.scan.rawText (textLength rest + 1)).span = ⟨r.scan.pos, r.scan.pos + byteSize data⟩ := by
  have read := readText_of_ahead ahead
  have more : r.scan.rest ≠ [] := by
    rw [ahead]
    exact List.cons_ne_nil _ _
  have ends : EndsText (r.scan.rest.drop (textLength rest + 1)) := by
    rw [ahead]
    exact endsText_drop rest
  obtain ⟨data, after, parts, size⟩ : ∃ data after, r.scan.rest = data ++ after ∧
      data.length = textLength rest + 1 := by
    apply exists_split
    rw [ahead]
    exact Nat.succ_le_succ (textLength_le rest)
  rw [← size] at read ends ⊢
  rw [parts, List.drop_left] at ends
  have nonempty : 0 < byteSize data := byteSize_pos (List.ne_nil_of_length_pos (by omega))
  have passed := @skip_past r.scan data after 0 parts
  have last : (r.scan.skip data.length).pos = r.scan.pos + byteSize data := congrArg Scan.pos passed
  refine ⟨data, after, ⟨.refl _, parts, more, r.moves_readText, ?_, ?_, Nat.le_refl _, ?_, ?_⟩, ?_⟩
  · rw [read]
    change _ ≤ (r.scan.skip data.length).pos
    omega
  · exact fun mark member => .inl member
  · intro stops
    rw [ahead, EndsText, textLength_cons, goesOn] at stops
    cases stops
  · -- the new text is one text as well
    obtain ⟨d, ds, rfl⟩ := List.exists_cons_of_ne_nil filled
    obtain ⟨⟨notTag, notBrace⟩, others⟩ := List.forall_mem_cons.1 plain
    have scan : (r.swap r.scan.rest.length (d :: ds ++ after)).scan =
        ⟨r.scan.pos, d :: ds ++ after, r.scan.errors⟩ := swap_all _ _
    have here : (r.swap r.scan.rest.length (d :: ds ++ after)).scan.rest = d :: (ds ++ after) := by
      rw [scan]
      rfl
    have again := readText_of_ahead here
    rw [textLength_append others ends, scan] at again
    have place := @skip_past ⟨r.scan.pos, d :: ds ++ after, r.scan.errors⟩ (d :: ds) after 0 rfl
    refine ⟨_, .text here (by simp [notTag, notBrace]), ?_, ?_⟩
    · rw [again]
      change r.scan.pos < (Scan.skip _ ((d :: ds).length + 0)).pos
      rw [place]
      have longer := byteSize_pos (List.cons_ne_nil d ds)
      dsimp only
      omega
    · have moved := @moved_past_scan r.scan data after (d :: ds) 0 parts accepted (by omega)
      rw [again, read, moved_add, moved_add, ← moved_before placed accepted (.refl _)]
      refine congrArg₂ (Reading.add (r.moved id r.scan.pos)) moved ?_
      exact (moved_text rfl).trans (moved_text rfl).symm
  · exact congrArg (Span.mk _) last

private theorem overlooks_comment {rest : List Char} {n : Nat}
    (ahead : r.scan.rest = '<' :: '!' :: '-' :: '-' :: rest)
    (found : findText? "-->".toList rest = some n) (absent : ¬"-->".toList <:+: new) :
    ∃ opened data after, Overlooks r r.readComment opened data after new r.scan.pos ∧
      r.scan.pos + 4 = opened.pos ∧
      ((r.scan.skip 4).skip (n + 3)).pos - 3 = opened.pos + byteSize data := by
  have read := readComment_of_found ahead found
  obtain ⟨last, closing⟩ := findText?_spec found
  have bound : n ≤ rest.length := by
    have sizes := congrArg List.length closing
    have three : "-->".toList.length = 3 := rfl
    rw [List.length_append, List.length_drop] at sizes
    omega
  obtain ⟨data, after, rfl, rfl⟩ := exists_split bound
  rw [List.drop_left] at closing
  have opened : r.scan.skip 4 = ⟨r.scan.pos + 4, data ++ after, r.scan.errors⟩ := by
    unfold skip
    rw [ahead]
    rfl
  have mark : after.take 3 = "-->".toList := by
    rw [← closing]
    rfl
  have three : byteSize (after.take 3) = 3 := by
    rw [mark]
    rfl
  have more : data ++ after ≠ [] := by
    rw [← closing]
    exact List.append_ne_nil_of_right_ne_nil _ (List.cons_ne_nil _ _)
  have stop : ((r.scan.skip 4).skip (data.length + 3)).pos =
      (r.scan.skip 4).pos + byteSize data + 3 := by
    rw [skip_past (m := 3) (opened ▸ rfl : (r.scan.skip 4).rest = data ++ after), three]
  have again : r.scan.swap (data ++ after).length (new ++ after) =
      ⟨r.scan.pos, '<' :: '!' :: '-' :: '-' :: (new ++ after), r.scan.errors⟩ := by
    have kept := @swapEnd_append (new ++ after) (data ++ after) ['<', '!', '-', '-']
    unfold Scan.swap
    rw [ahead]
    exact congrArg (Scan.mk _ · _) kept
  have rest : (r.scan.skip 4).rest = data ++ after := congrArg Scan.rest opened
  have start : (r.scan.skip 4).pos = r.scan.pos + 4 := congrArg Scan.pos opened
  refine ⟨r.scan.skip 4, data, after, ⟨r.scan.reaches_skip 4, rest, rest ▸ more, r.moves_readComment,
    ?_, ?_, (r.scan.reaches_skip 4).pos_le, ?_, ?_⟩, start.symm, ?_⟩
  · rw [read]
    change _ ≤ ((r.scan.skip 4).skip (data.length + 3)).pos
    omega
  · rw [read]
    exact fun mark member => .inl member
  · rw [rest, again]
    exact fun _ => rfl
  · have here : (r.swap (data ++ after).length (new ++ after)).scan.rest =
        '<' :: '!' :: '-' :: '-' :: (new ++ after) := congrArg Scan.rest again
    have closed : findText? "-->".toList (new ++ after) = some new.length := by
      rw [← closing]
      exact findText?_new absent (by decide)
    have reread := readComment_of_found here closed
    have body : (r.swap (data ++ after).length (new ++ after)).scan.skip 4 =
        ⟨(r.scan.skip 4).pos, new ++ after, (r.scan.skip 4).errors⟩ := by
      change (r.scan.swap _ _).skip 4 = _
      rw [again, opened]
      rfl
    rw [body] at reread
    have place := @skip_past ⟨(r.scan.skip 4).pos, new ++ after, (r.scan.skip 4).errors⟩ new after 3 rfl
    rw [rest]
    refine ⟨_, .comment here, ?_, ?_⟩
    · rw [reread]
      change r.scan.pos < (Scan.skip _ (new.length + 3)).pos
      rw [place]
      dsimp only
      omega
    · have moved := @moved_past_scan (r.scan.skip 4) data after new 3 rest accepted (by omega)
      rw [reread, read, moved_add, moved_add,
        ← moved_before placed accepted (r.scan.reaches_skip 4)]
      refine congrArg₂ (Reading.add (r.moved id r.scan.pos)) moved ?_
      exact (moved_comment rfl).trans (moved_comment rfl).symm
  · exact Nat.sub_eq_of_eq_add stop

end

private theorem reaches_openingTag (r : Reading) : r.scan.Reaches r.openingTag.scan :=
  (((r.scan.reaches_skip 1).trans (reaches_skip _ _)).trans (reaches_attributes _)).trans
    (reaches_tagEnd _ _ _)

private theorem placed_openingTag (placed : r.Placed source) :
    ∀ a ∈ r.openingTag.attributes, a.Placed source ⟨r.scan.pos, r.openingTag.scan.pos⟩ := by
  intro a member
  have toName := (r.scan.reaches_skip 1).trans (reaches_skip _
    ((r.scan.skip 1).count fun c => !(isBlank c || c == '/' || c == '>')))
  exact (placed_attributes (placed.here.trans toName) member).mono
    (inside_of_reaches toName (reaches_tagEnd _ _ _).pos_le)

theorem between_openingTag {mark : Mark}
    (member : mark ∈ r.openingTag.attributes.flatMap Attribute.marks) :
    mark.Between r.scan r.openingTag.scan :=
  (between_attributes member).mono ((r.scan.reaches_skip 1).trans (reaches_skip _ _))
    (reaches_tagEnd _ _ _)

/-- How many characters are passed depends on the text ahead only. -/
theorem exists_skipPast {text : List Char} (filled : text ≠ []) (c : Char) :
    ∃ m, 0 < byteSize (text.take m) ∧ ∀ s : Scan, s.rest = text → s.skipPast c = s.skip m := by
  have nonempty {m : Nat} (positive : 0 < m) : 0 < byteSize (text.take m) := by
    obtain ⟨m, rfl⟩ := Nat.exists_eq_add_of_lt positive
    obtain ⟨d, rest, rfl⟩ := List.exists_cons_of_ne_nil filled
    exact byteSize_pos (List.cons_ne_nil d (rest.take _))
  cases found : text.findIdx? (· == c) with
  | some n =>
    refine ⟨n + 1, nonempty (Nat.succ_pos n), fun s same => ?_⟩
    unfold skipPast
    rw [same, found]
  | none =>
    refine ⟨text.length, nonempty (List.length_pos_iff.2 filled), fun s same => ?_⟩
    unfold skipPast skipAll
    rw [same, found]

/-- A script or style in another construct. -/
theorem readRaw_inside {start n : Nat} {name : String} {attributes : List Attribute}
    (inside : r.stack ≠ [])
    (found : findText? ("</" ++ name).toList r.scan.rest = some n) :
    r.readRaw start name attributes = r.add ((r.scan.skip n).skipPast '>')
      (.element ⟨⟨start, ((r.scan.skip n).skipPast '>').pos⟩, name, .html, attributes, false⟩
        [.text (r.scan.rawText n)]) := by
  have filled : (!r.stack.isEmpty) = true := by simpa using inside
  unfold readRaw
  dsimp only
  rw [found]
  exact if_pos filled

/-- Adds a style, the reading being at `scan` now. -/
def addStyle (r : Reading) (scan : Scan) (style : Style) : Reading :=
  { r with scan := scan, styles := style :: r.styles }

/-- A style that stands in nothing. -/
theorem readRaw_style {start n : Nat} {name : String} {attributes : List Attribute}
    (top : r.stack = []) (named : name = "style")
    (found : findText? ("</" ++ name).toList r.scan.rest = some n) :
    r.readRaw start name attributes = r.addStyle ((r.scan.skip n).skipPast '>')
      ⟨⟨start, ((r.scan.skip n).skipPast '>').pos⟩, ⟨r.scan.pos, (r.scan.skip n).pos⟩⟩ := by
  subst named
  unfold readRaw
  dsimp only
  rw [found, top]
  rfl

private theorem readElement_of_raw (raw : r.openingTag.isRaw = true) : r.readElement =
    (r.moveTo r.openingTag.scan).readRaw r.scan.pos r.openingTag.name r.openingTag.attributes := by
  rw [readElement_eq, if_pos raw]

/-- The content of a script or style, and the characters that are passed behind it. The opening tag
is read in the same way with `new` in place of the content, and so is what is passed behind it. -/
structure Refills (r : Reading) (data after new : List Char) (m : Nat) : Prop where
  ahead : r.openingTag.scan.rest = data ++ after
  filled : r.openingTag.scan.rest ≠ []
  passes : 0 < byteSize (after.take m)
  last : (r.openingTag.scan.skip data.length).skipPast '>' = r.openingTag.scan.skip (data.length + m)
  opening : (r.swap r.openingTag.scan.rest.length (new ++ after)).openingTag =
    { r.openingTag with scan := ⟨r.openingTag.scan.pos, new ++ after, r.openingTag.scan.errors⟩ }
  found : findText? ("</" ++ r.openingTag.name).toList (new ++ after) = some new.length
  lastNew : (Scan.mk r.openingTag.scan.pos (new ++ after) r.openingTag.scan.errors |>.skip
    new.length).skipPast '>' = (Scan.mk r.openingTag.scan.pos (new ++ after)
      r.openingTag.scan.errors).skip (new.length + m)
  takes : (r.swap r.openingTag.scan.rest.length (new ++ after)).Takes
    (r.swap r.openingTag.scan.rest.length (new ++ after)).readElement
  ends : EndsText (r.scan.swap r.openingTag.scan.rest.length (new ++ after)).rest

private theorem exists_refills {c : Char} {rest : List Char} {n : Nat}
    (ahead : r.scan.rest = '<' :: c :: rest) (letter : c.isAlpha = true)
    (raw : r.openingTag.isRaw = true) (accepted : r.openingTag.scan.errors = [])
    (found : findText? ("</" ++ r.openingTag.name).toList r.openingTag.scan.rest = some n)
    (absent : ¬("</" ++ r.openingTag.name).toList <:+: new) :
    ∃ data after m, data.length = n ∧ r.Refills data after new m := by
  obtain ⟨last, closing⟩ := findText?_spec found
  have nonempty : 0 < ("</" ++ r.openingTag.name).toList.length := by
    rcases OpeningTag.known raw with same | same <;> rw [same] <;> decide
  have bound : n ≤ r.openingTag.scan.rest.length := by
    have sizes := congrArg List.length closing
    rw [List.length_append, List.length_drop] at sizes
    omega
  obtain ⟨data, after, parts, rfl⟩ := exists_split bound
  rw [parts, List.drop_left] at closing
  have filled : after ≠ [] := by
    rw [← closing]
    exact List.append_ne_nil_of_left_ne_nil (List.ne_nil_of_length_pos nonempty) _
  obtain ⟨m, passes, same⟩ := exists_skipPast filled '>'
  have more : r.openingTag.scan.rest ≠ [] := by
    rw [parts]
    exact List.append_ne_nil_of_right_ne_nil _ filled
  obtain ⟨opening, room⟩ := openingTag_swap (List.length_pos_iff.2 more) (new ++ after)
    (Nat.le_refl _) accepted
  rw [swap_all] at opening
  have here := rest_swap_two (new ++ after) ahead room
  refine ⟨data, after, m, rfl, parts, more, passes, ?_, opening, ?_, ?_, .element here letter, ?_⟩
  · rw [same _ (by rw [rest_skip, parts, List.drop_left]), skip_skip]
  · rw [← closing]
    apply findText?_new absent
    rcases OpeningTag.known raw with same | same <;> rw [same] <;> decide
  · rw [same _ (by rw [rest_skip]; exact List.drop_left), skip_skip]
  · rw [here, EndsText, textLength_cons, if_pos]
    simp [opensTag, letter]

section

variable {m : Nat} (refills : r.Refills data after new m)

include refills

private theorem Refills.pos_last : (r.openingTag.scan.skip (data.length + m)).pos =
    r.openingTag.scan.pos + byteSize data + byteSize (after.take m) :=
  congrArg Scan.pos (skip_past refills.ahead)

theorem Refills.behind : max (r.openingTag.scan.pos + 1) (r.openingTag.scan.pos + byteSize data) ≤
    (r.openingTag.scan.skip (data.length + m)).pos := by
  have positive := refills.passes
  rw [refills.pos_last]
  omega

/-- The step with the new content. -/
theorem Refills.again (raw : r.openingTag.isRaw = true) :
    (r.swap r.openingTag.scan.rest.length (new ++ after)).readElement =
      ((r.swap r.openingTag.scan.rest.length (new ++ after)).moveTo
        ⟨r.openingTag.scan.pos, new ++ after, r.openingTag.scan.errors⟩).readRaw r.scan.pos
          r.openingTag.name r.openingTag.attributes := by
  have same := refills.opening
  have isRaw : (r.swap r.openingTag.scan.rest.length (new ++ after)).openingTag.isRaw = true := by
    rw [same]
    exact raw
  rw [readElement_of_raw isRaw, same]
  rfl

variable (placed : r.Placed source) (accepted : r.openingTag.scan.errors = [])

include accepted

/-- Behind the new content the reading is at the displaced place. -/
theorem Refills.moved_last : ((Scan.mk r.openingTag.scan.pos (new ++ after)
      r.openingTag.scan.errors).skip (new.length + m)).moved id =
    (r.openingTag.scan.skip (data.length + m)).moved (r.openingTag.scan.displace data new) := by
  have positive := refills.passes
  exact moved_past_scan refills.ahead accepted (by omega)

private theorem Refills.pos_lastNew : ((Scan.mk r.openingTag.scan.pos (new ++ after)
      r.openingTag.scan.errors).skip (new.length + m)).pos =
    r.openingTag.scan.displace data new (r.openingTag.scan.skip (data.length + m)).pos :=
  congrArg Scan.pos (refills.moved_last accepted)

omit accepted in
private theorem Refills.lt_lastNew : r.openingTag.scan.pos < ((Scan.mk r.openingTag.scan.pos (new ++ after)
    r.openingTag.scan.errors).skip (new.length + m)).pos := by
  have positive := refills.passes
  rw [skip_past rfl]
  dsimp only
  omega

include placed

private theorem overlooks_content (raw : r.openingTag.isRaw = true) (inside : r.stack ≠ [])
    (found : findText? ("</" ++ r.openingTag.name).toList r.openingTag.scan.rest = some data.length)
    (earlier : r.scan.errors = []) :
    Overlooks r r.readElement r.openingTag.scan data after new r.openingTag.scan.pos := by
  have reached := r.reaches_openingTag
  have read := readElement_of_raw raw
  have whole := read.trans (readRaw_inside (r := r.moveTo r.openingTag.scan) inside found)
  have last : ((r.moveTo r.openingTag.scan).scan.skip data.length).skipPast '>' =
      r.openingTag.scan.skip (data.length + m) := refills.last
  rw [last] at whole
  have again := (refills.again raw).trans (readRaw_inside
    (r := (r.swap _ _).moveTo ⟨r.openingTag.scan.pos, new ++ after, r.openingTag.scan.errors⟩)
    inside refills.found)
  have lastNew : (((r.swap r.openingTag.scan.rest.length (new ++ after)).moveTo
      ⟨r.openingTag.scan.pos, new ++ after, r.openingTag.scan.errors⟩).scan.skip
        new.length).skipPast '>' = (Scan.mk r.openingTag.scan.pos (new ++ after)
      r.openingTag.scan.errors).skip (new.length + m) := refills.lastNew
  rw [lastNew] at again
  refine ⟨reached, refills.ahead, refills.filled, ?_, ?_, ?_, Nat.le_refl _, fun _ => refills.ends,
    r.swap r.openingTag.scan.rest.length (new ++ after) |>.readElement, refills.takes, ?_, ?_⟩
  · rw [whole]
    exact moves_add (reached.trans (reaches_skip _ _)) _
  · rw [whole]
    exact refills.behind
  · rw [read]
    exact fun mark member => (marks_readRaw member).symm.imp_right between_openingTag
  · rw [again]
    exact refills.lt_lastNew
  · have start := r.openingTag.scan.agree_displace data new _ reached.pos_le
    have attributes := @moved_congr_attributes _ ⟨r.scan.pos, r.openingTag.scan.pos⟩ _ _
      (r.openingTag.scan.agree_displace data new) _ (placed_openingTag placed)
    have before : r.moved id r.openingTag.scan.pos = r.moved _ r.openingTag.scan.pos :=
      moved_before placed earlier reached data new
    rw [again, whole, moved_add, moved_add]
    change (r.moved id _).add _ _ = (r.moved _ _).add _ _
    rw [← before]
    refine congrArg₂ (Reading.add (r.moved id _)) (refills.moved_last accepted) ?_
    simp only [Node.moved, movedNodes, ElementHead.moved, Span.moved]
    rw [attributes, refills.pos_lastNew accepted, filled_rawText, filled_rawText, ← start]
    · rfl
    · rfl
    · rfl

omit refills accepted placed in
private theorem moved_addStyle {move : Nat → Nat} {scan : Scan} {style : Style}
    (here : style.contentSpan.start = hole) : (r.addStyle scan style).moved move hole =
      (r.moved move hole).addStyle (scan.moved move) ⟨Span.empty 0, Span.empty 0⟩ := by
  have blank : style.moved move hole = ⟨Span.empty 0, Span.empty 0⟩ := if_pos here
  rw [← blank]
  rfl

private theorem overlooks_style (raw : r.openingTag.isRaw = true) (top : r.stack = [])
    (named : r.openingTag.name = "style")
    (found : findText? ("</" ++ r.openingTag.name).toList r.openingTag.scan.rest = some data.length)
    (earlier : r.scan.errors = []) :
    Overlooks r r.readElement r.openingTag.scan data after new r.openingTag.scan.pos := by
  have reached := r.reaches_openingTag
  have read := readElement_of_raw raw
  have whole := read.trans (readRaw_style (r := r.moveTo r.openingTag.scan) top named found)
  have last : ((r.moveTo r.openingTag.scan).scan.skip data.length).skipPast '>' =
      r.openingTag.scan.skip (data.length + m) := refills.last
  rw [last] at whole
  have again := (refills.again raw).trans (readRaw_style
    (r := (r.swap _ _).moveTo ⟨r.openingTag.scan.pos, new ++ after, r.openingTag.scan.errors⟩)
    top named refills.found)
  have lastNew : (((r.swap r.openingTag.scan.rest.length (new ++ after)).moveTo
      ⟨r.openingTag.scan.pos, new ++ after, r.openingTag.scan.errors⟩).scan.skip
        new.length).skipPast '>' = (Scan.mk r.openingTag.scan.pos (new ++ after)
      r.openingTag.scan.errors).skip (new.length + m) := refills.lastNew
  rw [lastNew] at again
  refine ⟨reached, refills.ahead, refills.filled, ?_, ?_, ?_, Nat.le_refl _, fun _ => refills.ends,
    r.swap r.openingTag.scan.rest.length (new ++ after) |>.readElement, refills.takes, ?_, ?_⟩
  · rw [whole]
    exact ⟨reached.trans (reaches_skip _ _), rfl, rfl⟩
  · rw [whole]
    exact refills.behind
  · rw [read]
    exact fun mark member => (marks_readRaw member).symm.imp_right between_openingTag
  · rw [again]
    exact refills.lt_lastNew
  · have before : r.moved id r.openingTag.scan.pos = r.moved _ r.openingTag.scan.pos :=
      moved_before placed earlier reached data new
    rw [again, whole]
    refine (moved_addStyle rfl).trans (Eq.trans ?_ (moved_addStyle rfl).symm)
    change (r.moved id r.openingTag.scan.pos).addStyle _ _ =
      (r.moved (r.openingTag.scan.displace data new) r.openingTag.scan.pos).addStyle _ _
    rw [← before, refills.moved_last accepted]

end

theorem Writes.overlooks {new : String} (writes : r.Writes next filler) (placed : r.Placed source)
    (earlier : r.scan.errors = []) (accepted : next.scan.errors = []) (admits : filler.Admits new) :
    ∃ opened data after hole, Overlooks r next opened data after new.toList hole ∧
      filler.content = ⟨opened.pos, opened.pos + byteSize data⟩ := by
  cases writes with
  | text ahead goesOn =>
    obtain ⟨filled, plain⟩ := admits
    have some : new.toList ≠ [] := fun none => filled (String.toList_eq_nil_iff.1 none)
    obtain ⟨data, after, overlooks, span⟩ := overlooks_text placed earlier ahead goesOn some plain
    exact ⟨_, data, after, _, overlooks, span⟩
  | comment ahead found =>
    obtain ⟨opened, data, after, overlooks, start, stop⟩ :=
      overlooks_comment placed earlier ahead found admits
    exact ⟨opened, data, after, _, overlooks, congrArg₂ Span.mk start stop⟩
  | content ahead letter raw inside found =>
    obtain ⟨_, plain⟩ := admits
    have tag := accepted_openingTag accepted
    have absent : ¬("</" ++ r.openingTag.name).toList <:+: new.toList := by
      intro occurs
      rw [String.toList_append] at occurs
      exact (plain '<' (occurs.subset (List.mem_append_left _ (.head _)))).1 rfl
    obtain ⟨data, after, m, rfl, refills⟩ := exists_refills ahead letter raw tag found absent
    exact ⟨_, data, after, _, overlooks_content refills placed tag raw inside found earlier,
      congrArg (Span.mk _) (pos_skip_past refills.ahead)⟩
  | style ahead letter raw top named found =>
    have tag := accepted_openingTag accepted
    have absent : ¬("</" ++ r.openingTag.name).toList <:+: new.toList := by
      rw [named]
      exact admits
    obtain ⟨data, after, m, rfl, refills⟩ := exists_refills ahead letter raw tag found absent
    exact ⟨_, data, after, _, overlooks_style refills placed tag raw top named found earlier,
      congrArg (Span.mk _) (pos_skip_past refills.ahead)⟩

end Reading

end TypedSvelte.Markup
