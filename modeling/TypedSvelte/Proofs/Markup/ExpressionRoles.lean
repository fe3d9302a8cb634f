import TypedSvelte.Proofs.Markup.ClosingBraces
import TypedSvelte.Proofs.Markup.Collections
import TypedSvelte.Proofs.Markup.Enclosure
import TypedSvelte.Proofs.Markup.MarkPlaces

/-!
# Blank expressions

Whether an expression can be blank depends on its role. What is told from a larger text, such as the
binding of a loop, is no expression if it is blank, and neither is a mustache or the expression of a
tag. The subject of a block and the value of an attribute are taken as they stand between an opening
and the brace that closes it, and such an expression is blank exactly if nothing but white space
stands there (`holds_of_mem_roles`).
-/
namespace TypedSvelte.Markup

/-- What stands before an expression that is all there is up to a closing brace. -/
def Role.opening? : Role → Option String
  | .value | .slotProp => some "\x7b"
  | .condition => some "\x7b#if"
  | .items => some "\x7b#each"
  | .promise => some "\x7b#await"
  | .keyed => some "\x7b#key"
  | _ => none

/-- The expression is what stands between an opening and the first brace that closes it, and it is
blank only where nothing but white space stands there. -/
def Expression.Fills (source opening : String) (e : Expression) : Prop :=
  ∃ (start : Nat) (raw : String),
    TypedSvelte.slice? source start (start + opening.utf8ByteSize + raw.utf8ByteSize + 1) =
      some (opening ++ raw ++ "\x7d") ∧
    IsEnclosed raw.toList ∧
    e.span.start = start + opening.utf8ByteSize + byteSize (raw.toList.takeWhile isBlank) ∧
    (e.text = "" ↔ raw.toList.all isBlank = true)

def Holds (source : String) (cast : Cast) : Prop :=
  match cast.1.opening? with
  | none => cast.2.text ≠ ""
  | some opening => cast.2.Fills source opening

private theorem holds_of_filled {source : String} {role : Role} {e : Expression}
    (other : role.opening? = none) (filled : e.text ≠ "") : Holds source (role, e) := by
  unfold Holds
  rw [other]
  exact filled

private theorem holds_of_fills {source opening : String} {role : Role} {e : Expression}
    (opens : role.opening? = some opening) (fills : e.Fills source opening) :
    Holds source (role, e) := by
  unfold Holds
  rw [opens]
  exact fills

section

variable {e : Expression}

private theorem exists_castAs {role : Role} {es : List Expression} :
    (∃ other, (other, e) ∈ castAs role es) ↔ e ∈ es := by
  simp [castAs]

theorem mem_expressionMarks {es : List Expression} : .expression e ∈ expressionMarks es ↔ e ∈ es := by
  simp [expressionMarks]

theorem mem_marks_attributes {attributes : List Attribute} :
    .expression e ∈ attributes.flatMap Attribute.marks ↔
      ∃ role, (role, e) ∈ attributes.flatMap Attribute.roles := by
  have one (a : Attribute) : .expression e ∈ a.marks ↔ ∃ role, (role, e) ∈ a.roles := by
    unfold Attribute.marks
    rw [Attribute.roles, exists_castAs, List.mem_append, mem_expressionMarks]
    refine or_iff_right fun itself => ?_
    cases a with
    | directive d => cases List.mem_singleton.1 itself
    | plain _ | shorthand _ | spread _ => cases itself
  simp only [List.mem_flatMap, one]
  constructor
  · rintro ⟨a, member, role, own⟩
    exact ⟨role, a, member, own⟩
  · rintro ⟨role, a, member, own⟩
    exact ⟨a, member, role, own⟩

mutual

private theorem mem_marks_iff_node : ∀ node : Node,
    .expression e ∈ node.marks ↔ ∃ role, (role, e) ∈ node.roles
  | .element head children => by
    simp only [Node.marks, Node.roles, List.mem_append, exists_or, mem_marks_attributes,
      mem_marks_iff_nodes children]
  | .text _ | .comment _ => by simp [Node.marks, Node.roles]
  | .mustache _ _ => by simp [Node.marks, Node.roles]
  | .tag _ kind e => by
    simp only [Node.marks, Node.roles, exists_castAs, mem_expressionMarks]
  | .ifBlock _ condition consequent alternate => by
    simp only [Node.marks, Node.roles, List.cons_append, List.mem_cons, List.mem_append, exists_or,
      mem_marks_iff_nodes consequent, mem_marks_iff_alternate alternate]
    simp
  | .each head body fallback => by
    simp only [Node.marks, Node.roles, EachHead.parts, EachHeader.roles, EachHead.header,
      List.mem_append, exists_or, mem_expressionMarks, List.cons_append, List.mem_cons,
      exists_castAs, mem_marks_iff_nodes body, mem_marks_iff_branch fallback]
    simp [or_assoc]
  | .await head pending onThen onCatch => by
    simp only [Node.marks, Node.roles, AwaitHead.parts, List.mem_append, exists_or,
      mem_expressionMarks, List.cons_append, List.mem_cons, exists_castAs,
      mem_marks_iff_nodes pending, mem_marks_iff_branch onThen, mem_marks_iff_branch onCatch]
    simp [or_assoc]
  | .key _ _ body => by
    simp only [Node.marks, Node.roles, List.mem_cons, exists_or, mem_marks_iff_nodes body]
    simp

/-- The expressions that nodes are marked by are those that have a role in them. -/
theorem mem_marks_iff_nodes : ∀ nodes : List Node,
    .expression e ∈ marksOf nodes ↔ ∃ role, (role, e) ∈ rolesOf nodes
  | [] => by simp [marksOf, rolesOf]
  | node :: rest => by
    simp only [marksOf, rolesOf, List.mem_append, exists_or, mem_marks_iff_node node,
      mem_marks_iff_nodes rest]

private theorem mem_marks_iff_branch : ∀ branch : Option (List Node),
    .expression e ∈ marksOfBranch branch ↔ ∃ role, (role, e) ∈ rolesOfBranch branch
  | none => by simp [marksOfBranch, rolesOfBranch]
  | some nodes => mem_marks_iff_nodes nodes

private theorem mem_marks_iff_alternate : ∀ rest : Alternate,
    .expression e ∈ rest.marks ↔ ∃ role, (role, e) ∈ rest.roles
  | .absent => by simp [Alternate.marks, Alternate.roles]
  | .otherwise nodes => mem_marks_iff_nodes nodes
  | .elseIf _ condition consequent alternate => by
    simp only [Alternate.marks, Alternate.roles, List.cons_append, List.mem_cons, List.mem_append,
      exists_or, mem_marks_iff_nodes consequent, mem_marks_iff_alternate alternate]
    simp

end

end

section

variable {source opening : String} {s : Scan} {e header part : Expression}

def Behind (source opening : String) (s : Scan) : Prop :=
  ∃ before, source.toList = before ++ (opening.toList ++ s.rest) ∧
    s.pos = byteSize before + opening.utf8ByteSize

private theorem behind_skip {rest : List Char} (here : (Scan.ofSource source).Reaches s)
    (ahead : s.rest = opening.toList ++ rest) :
    Behind source opening (s.skip opening.toList.length) := by
  obtain ⟨passed, whole, pos⟩ := here
  change source.toList = passed ++ s.rest at whole
  have size : s.rest.take opening.toList.length = opening.toList := by rw [ahead, List.take_left]
  refine ⟨passed, ?_, ?_⟩
  · rw [whole, Scan.rest_skip, ahead, List.drop_left]
  · change s.pos + byteSize (s.rest.take _) = _
    rw [size, pos, byteSize_toList]
    exact congrArg (· + _) (Nat.zero_add _)

/-- The place behind a word is behind an opening that ends with the word. -/
theorem behind_word {before : String} (here : (Scan.ofSource source).Reaches s)
    (begins : s.startsWith before = true) (size : before.toList.length = 2) :
    Behind source (before ++ (s.skip 2).word.1) (s.skip 2).word.2 := by
  obtain ⟨ahead, passed⟩ := rest_of_word begins size
  have behind := behind_skip here ahead
  rw [← passed] at behind
  exact behind

private theorem text_ofText_eq_empty_iff (offset : Nat) (raw : List Char) :
    (Expression.ofText offset raw).text = "" ↔ raw.all isBlank = true := by
  have text : (Expression.ofText offset raw).text = "" ↔ trim raw = [] := by
    rw [← String.toList_eq_nil_iff, Expression.ofText, String.toList_ofList]
  have behind : trim raw = [] ↔ ∀ c ∈ raw.dropWhile isBlank, isBlank c = true := by
    rw [trim, trimEnd, List.reverse_eq_nil_iff, List.dropWhile_eq_nil_iff]
    simp only [List.mem_reverse]
  rw [text, behind, List.all_eq_true]
  refine ⟨fun blank c member => ?_, fun blank c member => blank c (List.dropWhile_subset _ member)⟩
  rw [← List.takeWhile_append_dropWhile (p := isBlank) (l := raw), List.mem_append] at member
  exact member.elim List.mem_takeWhile_imp (blank c)

/-- What is read as an expression fills the braces that it stands in. -/
theorem fills_expression {at_ : Nat} (behind : Behind source opening s)
    (found : (s.expression at_).1 = some e) : e.Fills source opening := by
  obtain ⟨before, whole, pos⟩ := behind
  unfold Scan.expression at found
  split at found
  · rename_i n closes
    cases Option.some.inj found
    obtain ⟨front, rest, ahead, enclosed, rfl⟩ := closingBrace?_eq_some_iff.1 closes
    rw [ahead, List.take_left]
    refine ⟨byteSize before, String.ofList front, ?_, ?_, ?_, ?_⟩
    · refine (slice?_eq_some_iff _ _ _ _).2 ⟨String.ofList before, String.ofList rest, ?_, ?_, ?_⟩
      · apply String.toList_injective
        simp [whole, ahead]
      · exact utf8ByteSize_ofList before
      · simp only [String.utf8ByteSize_append, Nat.add_assoc]
        rfl
    · rw [String.toList_ofList]
      exact enclosed
    · rw [String.toList_ofList, ← pos]
      rfl
    · rw [String.toList_ofList]
      exact text_ofText_eq_empty_iff _ _
  · cases found

/-- An expression does not begin with white space. -/
theorem trimmed_expression {at_ : Nat} (found : (s.expression at_).1 = some e) :
    EndsRun isBlank e.chars := by
  unfold Scan.expression at found
  split at found
  · rename_i n _
    cases Option.some.inj found
    intro c first
    rw [Expression.chars, Expression.ofText, String.toList_ofList] at first
    exact (trimmed_trim (s.rest.take n)).1 c first
  · cases found

/-- A part that is cut out of a header is not blank. -/
theorem filled_of_slice? {start stop : Nat} (found : header.slice? start stop = some part) :
    part.text ≠ "" := by
  unfold Expression.slice? at found
  dsimp only at found
  split at found
  · cases found
  · rename_i filled
    cases Option.some.inj found
    intro blank
    exact filled (by rw [Expression.isEmpty, blank]; rfl)

/-- What is cut out of a text from its beginning begins the text. -/
theorem text_begins (stop : Nat) (text : String) :
    ((Span.mk 0 stop).text text).toList <+: text.toList := by
  unfold Span.text
  cases found : TypedSvelte.slice? text 0 stop with
  | none => exact List.nil_prefix
  | some part =>
    obtain ⟨before, after, rfl, size, _⟩ := (slice?_eq_some_iff _ _ _ _).1 found
    have nothing : before = "" := String.utf8ByteSize_eq_zero_iff.1 size
    rw [nothing, String.empty_append, String.toList_append]
    exact List.prefix_append _ _

/-- The first part of a header fills the same braces. -/
theorem Expression.Fills.slice (fills : header.Fills source opening)
    (trimmed : EndsRun isBlank header.chars) {stop : Nat}
    (found : header.slice? 0 stop = some part) : part.Fills source opening := by
  obtain ⟨start, raw, slice, enclosed, place, blank⟩ := fills
  have filled := filled_of_slice? found
  unfold Expression.slice? at found
  dsimp only at found
  split at found
  · cases found
  · obtain ⟨trail, whole⟩ := text_begins stop header.text
    cases Option.some.inj found
    refine ⟨start, raw, slice, enclosed, ?_, iff_of_false filled fun allBlank => filled ?_⟩
    · have ends : EndsRun isBlank ((Span.mk 0 stop).text header.text).toList := by
        intro c first
        refine trimmed c ?_
        rw [Expression.chars, ← whole, List.head?_append, first]
        rfl
      have none : ((Span.mk 0 stop).text header.text).toList.takeWhile isBlank = [] :=
        @takeWhile_until _ [] _ (List.forall_mem_nil _) ends
      change header.span.start + 0 + byteSize (List.takeWhile _ _) = _
      rw [none, ← place]
      rfl
    · rw [blank.2 allBlank] at whole ⊢
      rw [(List.append_eq_nil_iff.1 whole).1]
      rfl

/-- The subject of a header, the whole header standing in for one that is blank. -/
theorem Expression.Fills.subject (fills : header.Fills source opening)
    (trimmed : EndsRun isBlank header.chars) (stop : Nat) :
    ((header.slice? 0 stop).getD header).Fills source opening := by
  cases found : header.slice? 0 stop with
  | none => exact fills
  | some part => exact fills.slice trimmed found

private theorem filled_splitBinding {start stop : Nat}
    (found : (splitBinding header start stop).1 = some part ∨
      (splitBinding header start stop).2 = some part) : part.text ≠ "" := by
  unfold splitBinding at found
  split at found
  · dsimp only at found
    cases found with
    | inl context => exact filled_of_slice? context
    | inr index => exact filled_of_slice? index
  · dsimp only at found
    cases found with
    | inl context => exact filled_of_slice? context
    | inr index => cases index

/-- The parts of an `{#each}` header hold in their roles. -/
theorem holds_eachHeader {cast : Cast} (fills : header.Fills source "\x7b#each")
    (trimmed : EndsRun isBlank header.chars) (member : cast ∈ (EachHeader.split header).roles) :
    Holds source cast := by
  obtain ⟨role, e⟩ := cast
  unfold EachHeader.split at member
  split at member
  · cases List.mem_singleton.1 member
    exact holds_of_fills rfl fills
  · simp only [EachHeader.roles, List.cons_append, List.mem_cons, List.mem_append, mem_castAs,
      Option.mem_toList] at member
    rcases member with same | (⟨rfl, context⟩ | ⟨rfl, index⟩) | ⟨rfl, key⟩
    · rw [same]
      exact holds_of_fills rfl (fills.subject trimmed _)
    · exact holds_of_filled rfl (filled_splitBinding (.inl context))
    · exact holds_of_filled rfl (filled_splitBinding (.inr index))
    · refine holds_of_filled rfl ?_
      split at key
      · dsimp only at key
        exact filled_of_slice? key
      · cases key

/-- So do the parts of an `{#await}` header. -/
theorem holds_awaitHeader {cast : Cast} (fills : header.Fills source "\x7b#await")
    (trimmed : EndsRun isBlank header.chars) (member : cast ∈ (AwaitHeader.split header).roles) :
    Holds source cast := by
  obtain ⟨role, e⟩ := cast
  have branch {word : Span} {kind : AwaitBranch}
      (inside : (role, e) ∈ AwaitHeader.roles ⟨(header.slice? 0 word.start).getD header,
        some (kind, header.after? word.stop)⟩) : Holds source (role, e) := by
    simp only [AwaitHeader.roles, List.mem_cons, mem_castAs, Option.bind_some, Option.mem_toList,
      Expression.after?] at inside
    rcases inside with same | ⟨rfl, binding⟩
    · rw [same]
      exact holds_of_fills rfl (fills.subject trimmed _)
    · exact holds_of_filled rfl (filled_of_slice? binding)
  unfold AwaitHeader.split at member
  dsimp only at member
  cases onThen : findWord? header.chars AwaitBranch.then_.word with
  | some word =>
    rw [onThen] at member
    exact branch member
  | none =>
    cases onCatch : findWord? header.chars AwaitBranch.catch_.word with
    | some word =>
      rw [onThen, onCatch] at member
      exact branch member
    | none =>
      rw [onThen, onCatch] at member
      cases List.mem_singleton.1 member
      exact holds_of_fills rfl fills

end

section

variable {source : String} {s : Scan} {cast : Cast}

/-- The text of a continuation is an expression only if it is not blank. -/
theorem filled_continuation {e : Expression} (found : (Reading.continuation s).1 = some e) :
    e.text ≠ "" := by
  obtain ⟨_, filled⟩ := Option.filter_eq_some_iff.1 found
  intro blank
  rw [Expression.isEmpty, blank] at filled
  cases filled

private theorem filled_elseIf {rest next : Expression} (found : elseIfCondition? rest = some next) :
    next.text ≠ "" := by
  unfold elseIfCondition? Expression.after? at found
  split at found
  · split at found
    · exact filled_of_slice? found
    · cases found
  · cases found

private theorem filled_of_not_isEmpty {e : Expression} (filled : ¬e.isEmpty = true) : e.text ≠ "" := by
  intro blank
  refine filled ?_
  rw [Expression.isEmpty, blank]
  rfl

/-- The expressions of a header hold in their roles. -/
theorem holds_blockConstruct? {start : Nat} {word : String} {header : Expression}
    {construct : Construct} (fills : header.Fills source ("\x7b#" ++ word))
    (trimmed : EndsRun isBlank header.chars)
    (opens : Reading.blockConstruct? start word header = some construct) (member : cast ∈ construct.casts) :
    Holds source cast := by
  unfold Reading.blockConstruct? at opens
  split at opens
  · cases opens
    cases List.mem_singleton.1 member
    exact holds_of_fills rfl fills
  · cases opens
    exact holds_eachHeader fills trimmed member
  · dsimp only at opens
    refine holds_awaitHeader fills trimmed ?_
    split at opens
    · rename_i branch binding split
      cases opens
      rw [AwaitHeader.roles, split]
      exact member
    · rename_i split
      cases opens
      rw [AwaitHeader.roles, split]
      exact member
  · cases opens
    cases List.mem_singleton.1 member
    exact holds_of_fills rfl fills
  · cases opens

/-- What a step tells from the source holds in its role. -/
theorem Reading.Tells.holds {r : Reading} (tells : r.Tells cast)
    (here : (Scan.ofSource source).Reaches r.scan) : Holds source cast := by
  cases tells with
  | mustache found filled => exact holds_of_filled rfl (filled_of_not_isEmpty filled)
  | tag filled => exact holds_of_filled rfl (filled_of_not_isEmpty filled)
  | header begins found opens member =>
    have fills := fills_expression (behind_word here begins rfl) found
    exact holds_blockConstruct? fills (trimmed_expression found) opens member
  | continuation goesOn =>
    cases goesOn with
    | elseIf passed found => exact holds_of_filled rfl (filled_elseIf found)
    | result passed => exact holds_of_filled rfl (filled_continuation passed)

end

namespace Scan

variable {source : String} {s : Scan} {e : Expression} {cast : Cast}

/-- An expression behind a brace. -/
theorem fills_braced {rest : List Char} {opening : Nat} (here : (ofSource source).Reaches s)
    (ahead : s.rest = '{' :: rest) (found : ((s.skip 1).expression opening).1 = some e) :
    e.Fills source "\x7b" :=
  have behind : Behind source "\x7b" (s.skip 1) := behind_skip here ahead
  fills_expression behind found

private theorem fills_quotedParts {quote : Char} {opening : Nat} (here : (ofSource source).Reaches s)
    (member : .expression e ∈ (s.quotedParts quote opening).1) : e.Fills source "\x7b" := by
  fun_induction quotedParts s quote opening with
  | case1 s ended => cases member
  | case2 s c rest ahead closes => cases member
  | case3 s c rest ahead closes brace shorter more ih =>
    cases eq_of_beq brace
    rcases List.mem_append.1 member with first | later
    · obtain ⟨part, found, same⟩ := List.mem_map.1 first
      cases ValuePart.expression.inj same
      exact fills_braced here ahead (Option.mem_toList.1 found)
    · exact ih ((here.skip 1).trans (reaches_expression _ _)) later
  | case4 s c rest ahead closes brace n shorter more ih =>
    rcases List.mem_cons.1 member with text | later
    · cases text
    · exact ih (here.skip n) later

private theorem fills_attributeValue (here : (ofSource source).Reaches s)
    (member : .expression e ∈ s.attributeValue.1) : e.Fills source "\x7b" := by
  unfold attributeValue at member
  split at member
  · exact fills_quotedParts (here.skip 1) member
  · exact fills_quotedParts (here.skip 1) member
  · rename_i rest ahead
    obtain ⟨part, found, same⟩ := List.mem_map.1 member
    cases ValuePart.expression.inj same
    exact fills_braced here ahead (Option.mem_toList.1 found)
  · cases List.mem_singleton.1 member

private theorem fills_optionalValue (here : (ofSource source).Reaches s)
    (member : .expression e ∈ s.optionalValue.1) : e.Fills source "\x7b" := by
  unfold optionalValue at member
  split at member
  · have toValue := ((here.trans s.reaches_skipBlank).skip 1).trans (reaches_skipBlank _)
    exact fills_attributeValue toValue member
  · cases member

private theorem role_namedAttribute (span : Span) (name : String) (value : List ValuePart) :
    (namedAttribute span name value).role.opening? = some "\x7b" := by
  unfold namedAttribute
  dsimp only
  split
  · unfold Attribute.role
    dsimp only
    split <;> rfl
  · rfl

private theorem holds_attributeNamed {n : Nat} (here : (ofSource source).Reaches s)
    (member : cast ∈ (s.attributeNamed n).1.roles) : Holds source cast := by
  obtain ⟨role, e⟩ := cast
  obtain ⟨rfl, own⟩ := mem_castAs.1 member
  have mark : .expression e ∈ (s.attributeNamed n).1.marks :=
    List.mem_append_right _ (mem_expressionMarks.2 own)
  rcases marks_namedAttribute mark with ⟨_, same, inValue⟩ | ⟨_, _, _, other, _⟩
  · cases same
    exact holds_of_fills (role_namedAttribute _ _ _) (fills_optionalValue (here.skip n) inValue)
  · cases other

private theorem holds_readAttribute {a : Attribute} (here : (ofSource source).Reaches s)
    (read : s.readAttribute.1 = some a) (member : cast ∈ a.roles) : Holds source cast := by
  unfold readAttribute at read
  split at read
  · rename_i begins
    obtain ⟨e, found, braced⟩ := Option.bind_eq_some_iff.1 read
    unfold bracedAttribute? at braced
    split at braced
    · obtain ⟨part, after, rfl⟩ := Option.map_eq_some_iff.1 braced
      unfold Expression.after? at after
      cases List.mem_singleton.1 member
      exact holds_of_filled rfl (filled_of_slice? after)
    · cases braced
      cases List.mem_singleton.1 member
      exact holds_of_fills rfl (fills_braced here (rest_of_startsWith begins) found)
  · split at read
    · cases read
    · cases Option.some.inj read
      exact holds_attributeNamed here member

private theorem holds_attributes (here : (ofSource source).Reaches s)
    (member : cast ∈ s.attributes.1.flatMap Attribute.roles) : Holds source cast := by
  fun_induction attributes s with
  | case1 s blank ended => cases member
  | case2 s blank ended atEnd => cases member
  | case3 s blank ended atEnd shorter more ih =>
    have toBlank := here.trans s.reaches_skipBlank
    rw [List.flatMap_append, List.mem_append] at member
    rcases member with first | later
    · obtain ⟨a, found, own⟩ := List.mem_flatMap.1 first
      exact holds_readAttribute toBlank (Option.mem_toList.1 found) own
    · exact ih (toBlank.trans (reaches_readAttribute _)) later

end Scan

/-- The expressions of nodes in their roles as a collection. -/
def roleCollection : Collection Cast where
  ofNode := Node.roles
  ofAlternate := Alternate.roles
  ofAttribute := Attribute.roles
  ofCast cast := [cast]
  element _ children := by rw [Node.roles, rolesOf_eq_flatMap]
  mustache _ _ := rfl
  tag _ _ _ := (List.flatMap_singleton' _).symm
  ifBlock _ _ consequent alternate := by
    rw [Node.roles, rolesOf_eq_flatMap]
    rfl
  each _ body fallback := by
    rw [Node.roles, List.flatMap_singleton', rolesOf_eq_flatMap, rolesOfBranch_eq_flatMap]
  await _ pending onThen onCatch := by
    rw [Node.roles, List.flatMap_singleton', rolesOf_eq_flatMap, rolesOfBranch_eq_flatMap,
      rolesOfBranch_eq_flatMap, List.append_assoc, List.append_assoc, List.append_assoc]
  key _ _ body := by
    rw [Node.roles, rolesOf_eq_flatMap]
    rfl
  absent := rfl
  otherwise := rolesOf_eq_flatMap
  elseIf _ _ consequent alternate := by
    rw [Alternate.roles, rolesOf_eq_flatMap]
    rfl

namespace Reading

open Scan

variable {source : String} {r next : Reading} {cast : Cast}


/-- What a step adds to the expressions in their roles holds. -/
theorem holds_step (placed : r.Placed source) (takes : r.Takes next)
    (member : cast ∈ roleCollection.ofReading next) :
    cast ∈ roleCollection.ofReading r ∨ Holds source cast := by
  refine (Collection.mem_step placed takes member).imp_right fun added => ?_
  cases added with
  | ofTag own inAttribute =>
    have inTag := List.mem_flatMap.2 ⟨_, own, inAttribute⟩
    exact holds_attributes ((placed.here.skip 1).skip _) inTag
  | cast tells itself =>
    cases List.mem_singleton.1 itself
    exact tells.holds placed.here
  | text nothing => cases nothing
  | comment nothing => cases nothing

private theorem holds_finish (placed : r.Placed source)
    (holds : ∀ cast ∈ roleCollection.ofReading r, Holds source cast) :
    ∀ cast ∈ roleCollection.ofReading r.finish, Holds source cast := by
  fun_induction finish r with
  | case1 r ended => exact holds
  | case2 r next stepped falls ih =>
    refine ih (placed.step stepped) fun cast member => ?_
    exact (holds_step placed (takes_of_step stepped) member).elim (holds cast) id

end Reading

/-- Every expression of a document holds in its role. -/
theorem holds_of_mem_roles {source : String} {cast : Cast}
    (member : cast ∈ rolesOf (parse source).document.fragment) : Holds source cast := by
  refine Reading.holds_finish (Reading.placed_start source) nofun cast (List.mem_append_right _ ?_)
  rw [rolesOf_eq_flatMap] at member
  exact Collection.mem_ofNodes_reverse.1 member

end TypedSvelte.Markup
