import TypedSvelte.Markup.Scan

/-!
# Tags

Attributes of an opening tag and their values. Nothing in a tag is an error by itself except for a
value or an expression that the source ends.
-/
namespace TypedSvelte.Markup

namespace Scan

/-- The parts of a quoted value up to its closing quote, which is passed. The opening quote stands
at byte `opening`. -/
def quotedParts (s : Scan) (quote : Char) (opening : Nat) : List ValuePart × Scan :=
  match h : s.rest with
  | [] => ([], s.fail (.unexpectedEof (String.singleton quote)) opening)
  | c :: _ =>
    if c == quote then ([], s.skip 1)
    else if c == '{' then
      have : ((s.skip 1).expression s.pos).2.rest.length < s.rest.length :=
        Nat.lt_of_le_of_lt (length_expression_le _ _) (s.skip_lt 1 (by decide) (by simp [h]))
      let more := ((s.skip 1).expression s.pos).2.quotedParts quote opening
      (((s.skip 1).expression s.pos).1.toList.map .expression ++ more.1, more.2)
    else
      let n := 1 + (s.rest.tail.takeWhile fun d => d != quote && d != '{').length
      have : (s.skip n).rest.length < s.rest.length :=
        s.skip_lt n (by omega) (by simp [h])
      let more := (s.skip n).quotedParts quote opening
      (.text (s.rawText n) :: more.1, more.2)
  termination_by s.rest.length

def attributeValue (s : Scan) : List ValuePart × Scan :=
  match s.rest with
  | '"' :: _ => (s.skip 1).quotedParts '"' s.pos
  | '\'' :: _ => (s.skip 1).quotedParts '\'' s.pos
  | '{' :: _ =>
    let (part?, next) := (s.skip 1).expression s.pos
    (part?.toList.map .expression, next)
  | _ =>
    let n := s.count fun c => !(isBlank c || c == '>')
    ([.text (s.rawText n)], s.skip n)

def endsAttributeName (c : Char) : Bool :=
  isBlank c || c == '=' || c == '>' || c == '/' || c == '"' || c == '\''

/-- The value after the name of an attribute: empty, and nothing passed, without an equals sign. -/
def optionalValue (s : Scan) : List ValuePart × Scan :=
  if s.skipBlank.startsWith "=" then (s.skipBlank.skip 1).skipBlank.attributeValue else ([], s)

/-- The part of a value that a directive keeps: its one expression. -/
def soleExpression? : List ValuePart → Option Expression
  | [.expression e] => some e
  | _ => none

/-- The attribute of the given name and value: a directive if the name has the form `kind:rest` with
a known kind. -/
def namedAttribute (span : Span) (name : String) (value : List ValuePart) : Attribute :=
  let chars := name.toList
  let before := chars.takeWhile (· != ':')
  let kind? :=
    if before.length < chars.length then DirectiveKind.ofWord? (String.ofList before) else none
  match kind? with
  | some kind =>
    let rest := (chars.drop (before.length + 1)).splitOn '|'
    .directive
      ⟨span, kind, String.ofList (rest.headD []), rest.tail.map String.ofList, soleExpression? value⟩
  | none => .plain ⟨span, name, value⟩

/-- The attribute that an expression in braces stands for: none if nothing follows the dots. -/
def bracedAttribute? (e : Expression) : Option Attribute :=
  if e.text.startsWith "..." then (e.after? 3).map .spread else some (.shorthand e)

/-- The attribute whose name is the next `n` characters. -/
def attributeNamed (s : Scan) (n : Nat) : Attribute × Scan :=
  let value := (s.skip n).optionalValue
  (namedAttribute ⟨s.pos, value.2.pos⟩ (String.ofList (s.rest.take n)) value.1, value.2)

/-- The attribute ahead, after white space; a stray character is passed and gives none. -/
def readAttribute (s : Scan) : Option Attribute × Scan :=
  if s.startsWith "\x7b" then
    (((s.skip 1).expression s.pos).1.bind bracedAttribute?, ((s.skip 1).expression s.pos).2)
  else
    match s.count fun c => !endsAttributeName c with
    | 0 => (none, s.skip 1)
    | n + 1 => ((s.attributeNamed (n + 1)).1, (s.attributeNamed (n + 1)).2)

theorem length_quotedParts_le (s : Scan) (quote : Char) (opening : Nat) :
    (s.quotedParts quote opening).2.rest.length ≤ s.rest.length := by
  fun_induction quotedParts s quote opening with
  | case1 => simp
  | case2 => exact length_skip_le _ _
  | case3 s c rest hs hquote hbrace hlt more ih => exact Nat.le_trans ih (Nat.le_of_lt hlt)
  | case4 s c rest hs hquote hbrace n hlt more ih => exact Nat.le_trans ih (Nat.le_of_lt hlt)

theorem length_attributeValue_le (s : Scan) :
    s.attributeValue.2.rest.length ≤ s.rest.length := by
  unfold attributeValue
  split
  · exact Nat.le_trans (length_quotedParts_le _ _ _) (length_skip_le _ _)
  · exact Nat.le_trans (length_quotedParts_le _ _ _) (length_skip_le _ _)
  · exact Nat.le_trans (length_expression_le _ _) (length_skip_le _ _)
  · exact length_skip_le _ _

theorem length_optionalValue_le (s : Scan) :
    s.optionalValue.2.rest.length ≤ s.rest.length := by
  unfold optionalValue
  split
  · refine Nat.le_trans (length_attributeValue_le _) (Nat.le_trans (length_skipBlank_le _) ?_)
    exact Nat.le_trans (length_skip_le _ _) (length_skipBlank_le _)
  · exact Nat.le_refl _

theorem readAttribute_lt (s : Scan) (hs : s.rest ≠ []) :
    s.readAttribute.2.rest.length < s.rest.length := by
  have one := s.skip_lt 1 (by decide) hs
  unfold readAttribute
  split
  · exact Nat.lt_of_le_of_lt (length_expression_le _ _) one
  · split
    · exact one
    · rename_i n _
      exact Nat.lt_of_le_of_lt (length_optionalValue_le _) (s.skip_lt (n + 1) (by omega) hs)

/-- The attributes up to the end of an opening tag, which is not passed. -/
def attributes (s : Scan) : List Attribute × Scan :=
  let here := s.skipBlank
  if h : here.rest = [] then ([], here)
  else if here.startsWith ">" || here.startsWith "/>" then ([], here)
  else
    have : here.readAttribute.2.rest.length < s.rest.length :=
      Nat.lt_of_lt_of_le (here.readAttribute_lt h) s.length_skipBlank_le
    let more := here.readAttribute.2.attributes
    (here.readAttribute.1.toList ++ more.1, more.2)
  termination_by s.rest.length

theorem length_attributes_le (s : Scan) : s.attributes.2.rest.length ≤ s.rest.length := by
  fun_induction attributes s with
  | case1 => exact length_skipBlank_le _
  | case2 => exact length_skipBlank_le _
  | case3 s here hs hend hlt more ih => exact Nat.le_trans ih (Nat.le_of_lt hlt)

end Scan

end TypedSvelte.Markup
