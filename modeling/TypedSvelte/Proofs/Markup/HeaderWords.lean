import TypedSvelte.Proofs.Markup.Phrases
import TypedSvelte.Proofs.Markup.RenderedBlocks

/-!
# Words in headers

The header of an `{#await}` block is searched for `then` and `catch`, that of an `{#each}` block for
`as`, outside of all brackets but in whatever position the word stands. So a block gets the phrases
that its header was put together from exactly if the words that are searched for do not occur in the
first one (`header_split`), not even as the name of a member (`member_taken_for_word`).
-/
namespace TypedSvelte.Markup

open Scan Reading

variable {text core rest : List Char} {offset : Nat} {word : String}

/-- The words that are searched for up to the word of a branch. -/
def AwaitBranch.searched : AwaitBranch → List String
  | .then_ => ["then"]
  | .catch_ => ["then", "catch"]

section

variable {s : Span}

private theorem awaitHeader_then (found : findWord? text "then" = some s) :
    AwaitHeader.split (placed text offset) =
      ⟨((placed text offset).slice? 0 s.start).getD (placed text offset),
        some (.then_, (placed text offset).after? s.stop)⟩ := by
  unfold AwaitHeader.split
  rw [chars_placed]
  simp [AwaitBranch.word, found]

private theorem awaitHeader_catch (noThen : findWord? text "then" = none)
    (found : findWord? text "catch" = some s) :
    AwaitHeader.split (placed text offset) =
      ⟨((placed text offset).slice? 0 s.start).getD (placed text offset),
        some (.catch_, (placed text offset).after? s.stop)⟩ := by
  unfold AwaitHeader.split
  rw [chars_placed]
  simp [AwaitBranch.word, noThen, found]

private theorem awaitHeader_none (noThen : findWord? text "then" = none)
    (noCatch : findWord? text "catch" = none) :
    AwaitHeader.split (placed text offset) = ⟨placed text offset, none⟩ := by
  unfold AwaitHeader.split
  rw [chars_placed]
  simp [AwaitBranch.word, noThen, noCatch]

end

/-- A phrase is the whole header exactly if it lacks the words of both branches. -/
theorem awaitHeader_phrase_iff (e : Phrase) :
    AwaitHeader.split (placed e.chars offset) = ⟨placed e.chars offset, none⟩ ↔
      ∀ word ∈ AwaitBranch.catch_.searched, e.Lacks word := by
  have searched : (∀ word ∈ AwaitBranch.catch_.searched, e.Lacks word) ↔
      findWord? e.chars "then" = none ∧ findWord? e.chars "catch" = none := by
    simp [AwaitBranch.searched, Phrase.findWord?_eq_none_iff]
  rw [searched]
  constructor
  · intro whole
    cases noThen : findWord? e.chars "then" with
    | some s =>
      rw [awaitHeader_then noThen] at whole
      cases congrArg AwaitHeader.branch whole
    | none =>
      cases noCatch : findWord? e.chars "catch" with
      | some s =>
        rw [awaitHeader_catch noThen noCatch] at whole
        cases congrArg AwaitHeader.branch whole
      | none => exact ⟨rfl, rfl⟩
  · exact fun lacks => awaitHeader_none lacks.1 lacks.2

/-- A clause is split at its word exactly if its subject lacks the words that are searched for. -/
theorem awaitHeader_clause_iff (e : Clause) (branch : AwaitBranch) (word : e.word = branch.word)
    (binding : e.binding.Lacks "then") :
    AwaitHeader.split (placed e.chars offset) =
        ⟨e.subjectAt offset, some (branch, some (e.bindingAt offset))⟩ ↔
      ∀ word ∈ branch.searched, e.subject.Lacks word := by
  constructor
  · intro whole
    have subject : (AwaitHeader.split (placed e.chars offset)).expression = e.subjectAt offset :=
      congrArg AwaitHeader.expression whole
    -- an occurrence in the subject is found first, so that less than the subject is kept
    have noThen : e.subject.Lacks "then" := by
      by_contra occurs
      obtain ⟨s, found, early⟩ := e.findWord?_early occurs
      rw [awaitHeader_then found] at subject
      dsimp only at subject
      exact e.getD_slice?_ne early subject
    cases branch with
    | then_ => exact List.forall_mem_singleton.2 noThen
    | catch_ =>
      refine List.forall_mem_cons.2 ⟨noThen, List.forall_mem_singleton.2 ?_⟩
      by_contra occurs
      obtain ⟨s, found, early⟩ := e.findWord?_early occurs
      have nothing : findWord? e.chars "then" = none :=
        e.findWord?_other (by rw [word]; decide) noThen binding
      rw [awaitHeader_catch nothing found] at subject
      dsimp only at subject
      exact e.getD_slice?_ne early subject
  · intro lacks
    have found : e.subject.Lacks branch.word := lacks _ (by cases branch <;> decide)
    have here := e.findWord?_word (word ▸ found)
    rw [word] at here
    cases branch with
    | then_ =>
      rw [awaitHeader_then here, e.slice?_subject, e.after?_binding]
      rfl
    | catch_ =>
      have nothing : findWord? e.chars "then" = none :=
        e.findWord?_other (by rw [word]; decide) (lacks _ (.head _)) binding
      rw [awaitHeader_catch nothing here, e.slice?_subject, e.after?_binding]
      rfl

/-- The binding of an `{#each}` header is the context alone: it has no comma outside of brackets and
no group in parentheses at its end. -/
def Phrase.IsSole (e : Phrase) : Prop :=
  (∀ t ∈ topLevelTokens e.chars, t.kind ≠ .comma) ∧ e.chars.getLast? ≠ some ')'

instance (e : Phrase) : Decidable e.IsSole := inferInstanceAs (Decidable (_ ∧ _))

private theorem eachHeader_expression {s : Span} (found : findWord? text "as" = some s) :
    (EachHeader.split (placed text offset)).expression =
      ((placed text offset).slice? 0 s.start).getD (placed text offset) := by
  unfold EachHeader.split
  rw [chars_placed, found]

/-- The group that ends a text ends with a parenthesis. -/
theorem getLast?_of_trailingGroup? {group : Span} (found : trailingGroup? text = some group) :
    (trimEnd text).getLast? = some ')' := by
  unfold trailingGroup? at found
  obtain ⟨last, isLast, found⟩ := Option.bind_eq_some_iff.1 found
  obtain ⟨closes, _⟩ := Option.ite_none_right_eq_some.1 found
  simp only [Bool.and_eq_true, beq_iff_eq] at closes
  have inText := in_of_mem_topLevelTokens (List.mem_reverse.1 (List.mem_of_mem_head? isLast))
  have slice := (inText.slice?_mark ')' (by rw [closes.1]; rfl)).1
  obtain ⟨before, after, parts, start, stop⟩ := (slice?_eq_some_iff ..).1 slice
  obtain ⟨others, whole⟩ := trimEnd_begins text
  have ends : trimEnd text = before.toList ++ [')'] := by
    have same : trimEnd text ++ others = before.toList ++ [')'] ++ after.toList := by
      have chars := congrArg String.toList parts
      simp only [String.toList_ofList, String.toList_append, String.toList_singleton] at chars
      rw [whole, chars]
    refine eq_of_byteSize_eq same ?_
    rw [← closes.2, ← stop, byteSize_append, byteSize_toList, start]
    rfl
  rw [ends, List.getLast?_concat]

private theorem eachHeader_clause_iff (e : Clause) (word : e.word = "as") :
    (EachHeader.split (placed e.chars offset)).expression = e.subjectAt offset ↔
      e.subject.Lacks "as" := by
  constructor
  · intro subject
    by_contra occurs
    obtain ⟨s, found, early⟩ := e.findWord?_early occurs
    rw [eachHeader_expression found] at subject
    exact e.getD_slice?_ne early subject
  · intro lacks
    have found := e.findWord?_word (word ▸ lacks)
    rw [word] at found
    rw [eachHeader_expression found, e.slice?_subject]
    rfl

private theorem eachHeader_sole (e : Clause) (word : e.word = "as") (lacks : e.subject.Lacks "as")
    (sole : e.binding.IsSole) :
    EachHeader.split (placed e.chars offset) =
      ⟨e.subjectAt offset, some (e.bindingAt offset), none, none⟩ := by
  have found := e.findWord?_word (word ▸ lacks)
  rw [word] at found
  have parts : (placed e.chars offset).text = String.ofList
      (e.upToWord ++ e.word.toList ++ (e.behind.val ++ e.binding.chars) ++ []) := by
    simp [placed, Clause.chars, Clause.fromWord]
  have size : (placed e.chars offset).text.utf8ByteSize =
      e.wordSpan.stop + byteSize (e.behind.val ++ e.binding.chars) := by
    rw [parts, utf8ByteSize_ofList, List.append_nil, byteSize_append (_ ++ _)]
    rfl
  have after : (Span.mk e.wordSpan.stop (placed e.chars offset).text.utf8ByteSize).text
      (placed e.chars offset).text = String.ofList (e.behind.val ++ e.binding.chars) := by
    rw [size, parts]
    exact text_middle ..
  have noComma : findComma? (e.behind.val ++ e.binding.chars) = none := by
    unfold findComma? topLevelTokens tokens
    rw [tokensFrom_blank e.behind.property.2, tokensFrom_eq,
      outermost_map (f := Token.later _) fun _ => rfl, Option.map_eq_none_iff, List.find?_eq_none]
    intro t member
    obtain ⟨u, inTop, rfl⟩ := List.mem_map.1 member
    exact fun isComma => sole.1 u inTop (eq_of_beq isComma)
  have noGroup : trailingGroup? (e.behind.val ++ e.binding.chars) = none := by
    have last : (e.behind.val ++ e.binding.chars).getLast? = e.binding.chars.getLast? := by
      rw [List.getLast?_append, List.getLast?_eq_some_getLast e.binding.filled, Option.some_or]
    rw [Option.eq_none_iff_forall_ne_some]
    intro group found
    have ends := getLast?_of_trailingGroup? found
    rw [trimEnd_of_last (last ▸ e.binding.trimmed.2), last] at ends
    exact sole.2 ends
  have binding : (placed e.chars offset).after? e.wordSpan.stop = some (e.bindingAt offset) :=
    e.after?_binding
  unfold Expression.after? at binding
  unfold EachHeader.split splitBinding
  rw [chars_placed, found]
  dsimp only
  rw [after, String.toList_ofList, noGroup]
  dsimp only
  rw [after, String.toList_ofList, noComma, e.slice?_subject, binding]
  rfl

/-- The white space around the header of a block. -/
structure Framing where
  lead : Spacing
  trail : List Char
  blank : ∀ c ∈ trail, isBlank c = true

namespace Framing

variable (f : Framing) {r : Reading} {construct : Construct}

def header (core : List Char) : List Char := f.lead.val ++ core ++ f.trail

def chars (word : String) (core : List Char) : List Char :=
  '{' :: '#' :: (word.toList ++ f.header core ++ ['}'])

/-- The opening of a block is what the reading has before it. -/
def Ahead (r : Reading) (word : String) (core : List Char) : Prop :=
  ∃ rest, r.scan.rest = f.chars word core ++ rest

/-- Where the header begins, its white space aside. -/
def place (r : Reading) (word : String) : Nat :=
  r.scan.pos + byteSize ('{' :: '#' :: (word.toList ++ f.lead.val))

/-- The reading behind the opening of a block, in the construct that it opens. -/
def entered (r : Reading) (word : String) (core : List Char) (construct : Construct) : Reading :=
  r.enter (r.scan.skip (f.chars word core).length) construct

theorem closingBrace?_header (passable : Passable core) :
    closingBrace? (f.header core ++ '}' :: rest) = some (f.header core).length := by
  have mild : Mild (f.trail ++ '}' :: rest) := by
    obtain ⟨lead, _ | ⟨c, cs⟩, blank⟩ := f
    · rintro d ⟨⟩
      rfl
    · exact mild_of_blank (blank c (.head _))
  have skipped := (skipped_blanks f.lead.property.2).append
    ((passable _ mild).append (skipped_blanks f.blank))
  have found := skipped 0
  have here : closingBraceFrom 0 ('}' :: rest) = some 0 := closingBraceFrom_cons
  rw [here, Option.map_some, Nat.zero_add, ← List.append_assoc] at found
  exact found

/-- The opening of a block enters the construct of its word and of its header. -/
theorem step_header (isWord : isWord word.toList = true) (passable : Passable core)
    (trimmed : Trimmed core) (filled : core ≠ []) (ahead : f.Ahead r word core)
    (known : blockConstruct? r.scan.pos word (placed core (f.place r word)) = some construct) :
    r.step = some (f.entered r word core construct) := by
  obtain ⟨rest, ahead⟩ := ahead
  obtain ⟨_, _, _, _, chars⟩ := isWord_iff.1 isWord
  have whole : r.scan.rest = '{' :: '#' :: (word.toList ++ (f.header core ++ '}' :: rest)) := by
    rw [ahead, Framing.chars]
    simp
  have inWord : (r.scan.skip 2).rest = word.toList ++ (f.header core ++ '}' :: rest) := by
    rw [rest_skip, whole]
    rfl
  have read : (r.scan.skip 2).word = (word, r.scan.skip (2 + word.toList.length)) := by
    have ends : EndsWord (f.header core ++ '}' :: rest) := by
      rw [header, List.append_assoc, List.append_assoc]
      exact f.lead.endsWord
    have run : (r.scan.skip 2).count isIdentChar = word.toList.length := by
      rw [count, inWord, takeWhile_until chars ends]
    unfold Scan.word
    dsimp only
    rw [run, inWord, List.take_left, String.ofList_toList, skip_skip]
  have inHeader : (r.scan.skip (2 + word.toList.length)).rest = f.header core ++ '}' :: rest := by
    rw [← skip_skip, rest_skip, inWord, List.drop_left]
  have place : (r.scan.skip (2 + word.toList.length)).pos + byteSize f.lead.val =
      f.place r word := by
    have size : 2 + word.toList.length = ('{' :: '#' :: word.toList).length := by
      simp only [List.length_cons]
      omega
    rw [size, @Reading.pos_skip r ('{' :: '#' :: word.toList) _ whole, Framing.place,
      Nat.add_assoc, ← byteSize_append]
    rfl
  have length : 2 + word.toList.length + ((f.header core).length + 1) =
      (f.chars word core).length := by
    simp only [Framing.chars, List.length_cons, List.length_append, List.length_nil]
    omega
  have found : closingBrace? (r.scan.skip (2 + word.toList.length)).rest =
      some (f.header core).length := by
    rw [inHeader, f.closingBrace?_header passable]
  have expression := @expression_eq _ _ _ r.scan.pos found inHeader
  rw [header, ofText_around f.lead.property.2 trimmed filled f.blank, place, ← header, skip_skip,
    length] at expression
  have stepped := step_block whole
  unfold readBlock at stepped
  dsimp only at stepped
  rw [read] at stepped
  dsimp only at stepped
  rw [expression] at stepped
  dsimp only at stepped
  rw [known] at stepped
  exact stepped

private theorem entered_inj {first second : Construct} :
    f.entered r word core first = f.entered r word core second ↔ first = second := by
  constructor
  · intro same
    injection (List.cons.inj (congrArg Reading.stack same)).1
  · rintro rfl
    rfl

end Framing

/-- The construct that an `{#await}` block opens. -/
def AwaitHeader.construct (start : Nat) (header : AwaitHeader) : Construct :=
  match header.branch with
  | some (branch, binding) => .awaitBranch ⟨start, header.expression, [], none, none⟩ branch binding
  | none => .awaitPending start header.expression

private theorem AwaitHeader.construct_inj {start : Nat} {first second : AwaitHeader} :
    first.construct start = second.construct start ↔ first = second := by
  constructor
  · intro same
    obtain ⟨_, _ | ⟨_, _⟩⟩ := first <;> obtain ⟨_, _ | ⟨_, _⟩⟩ := second <;> cases same <;> rfl
  · rintro rfl
    rfl

theorem blockConstruct?_await {start : Nat} {header : Expression} :
    blockConstruct? start "await" header = some ((AwaitHeader.split header).construct start) := by
  simp only [blockConstruct?, AwaitHeader.construct]
  split <;> simp_all

namespace Framing

variable (f : Framing) {r : Reading}

private theorem step_await_iff (passable : Passable core) (trimmed : Trimmed core) (filled : core ≠ [])
    (ahead : f.Ahead r "await" core) (header : AwaitHeader) :
    r.step = some (f.entered r "await" core (header.construct r.scan.pos)) ↔
      AwaitHeader.split (placed core (f.place r "await")) = header := by
  have stepped := f.step_header (by decide) passable trimmed filled ahead blockConstruct?_await
  rw [stepped, Option.some_inj, f.entered_inj, AwaitHeader.construct_inj]

private theorem step_each_iff (passable : Passable core) (trimmed : Trimmed core) (filled : core ≠ [])
    (ahead : f.Ahead r "each" core) (header : EachHeader) :
    r.step = some (f.entered r "each" core (.eachBody r.scan.pos header)) ↔
      EachHeader.split (placed core (f.place r "each")) = header := by
  have stepped := f.step_header (by decide) passable trimmed filled ahead rfl
  rw [stepped, Option.some_inj, f.entered_inj]
  exact ⟨fun same => by injection same, fun same => by rw [same]⟩

end Framing

/-- The phrases that a block is written from are those that it gets exactly if the words that its
header is searched for do not occur outside of the brackets of the first one: the subject alone, the
subject with the binding of a branch, and the items with their context. -/
theorem header_split (r : Reading) (f : Framing) :
    (∀ e : Phrase, f.Ahead r "await" e.chars →
      (r.step = some (f.entered r "await" e.chars
          (.awaitPending r.scan.pos (placed e.chars (f.place r "await")))) ↔
        ∀ word ∈ AwaitBranch.catch_.searched, e.Lacks word)) ∧
    (∀ (e : Clause) (branch : AwaitBranch), e.word = branch.word → e.binding.Lacks "then" →
      f.Ahead r "await" e.chars →
      (r.step = some (f.entered r "await" e.chars (.awaitBranch
          ⟨r.scan.pos, e.subjectAt (f.place r "await"), [], none, none⟩ branch
          (some (e.bindingAt (f.place r "await"))))) ↔
        ∀ word ∈ branch.searched, e.subject.Lacks word)) ∧
    ∀ e : Clause, e.word = "as" → f.Ahead r "each" e.chars →
      ((∃ header : EachHeader, header.expression = e.subjectAt (f.place r "each") ∧
          r.step = some (f.entered r "each" e.chars (.eachBody r.scan.pos header))) ↔
        e.subject.Lacks "as") ∧
      (e.binding.IsSole →
        (r.step = some (f.entered r "each" e.chars (.eachBody r.scan.pos
          ⟨e.subjectAt (f.place r "each"), some (e.bindingAt (f.place r "each")), none, none⟩)) ↔
            e.subject.Lacks "as")) := by
  refine ⟨fun e ahead => ?_, fun e branch word binding ahead => ?_, fun e word ahead => ?_⟩
  · rw [← awaitHeader_phrase_iff]
    exact f.step_await_iff e.passable e.trimmed e.filled ahead ⟨_, none⟩
  · rw [← awaitHeader_clause_iff e branch word binding]
    exact f.step_await_iff e.passable e.trimmed e.filled ahead ⟨_, some (branch, some _)⟩
  · have stepped := f.step_each_iff e.passable e.trimmed e.filled ahead
    constructor
    · rw [← eachHeader_clause_iff e word]
      constructor
      · rintro ⟨header, subject, step⟩
        rw [(stepped header).1 step]
        exact subject
      · intro subject
        exact ⟨_, subject, (stepped _).2 rfl⟩
    · intro sole
      rw [stepped]
      constructor
      · intro whole
        exact (eachHeader_clause_iff e word).1 (congrArg EachHeader.expression whole)
      · exact fun lacks => eachHeader_sole e word lacks sole

private theorem trimmed_call : Trimmed "f(then)".toList := by
  constructor <;> rintro c ⟨⟩ <;> decide

/-- A call whose result is awaited, bound and iterated over. -/
theorem header_split_call :
    let call : Phrase := ⟨"f(then)".toList, by decide +kernel, trimmed_call, by decide +kernel,
      by decide +kernel⟩
    let item : Phrase := ⟨['x'], by decide, trimmed_of_isWord rfl, by decide +kernel,
      by decide +kernel⟩
    let space : Spacing := ⟨[' '], List.cons_ne_nil _ _, List.forall_mem_singleton.2 rfl⟩
    let frame : Framing := ⟨space, [], nofun⟩
    let bound : Clause := ⟨call, space, "then", by decide, space, item⟩
    let listed : Clause := ⟨call, space, "as", by decide, space, item⟩
    let first := Reading.start "\x7b#await f(then)\x7d"
    let second := Reading.start "\x7b#await f(then) then x\x7d"
    let third := Reading.start "\x7b#each f(then) as x\x7d"
    first.step = some (frame.entered first "await" call.chars
        (.awaitPending 0 (placed "f(then)".toList 8))) ∧
      second.step = some (frame.entered second "await" bound.chars (.awaitBranch
        ⟨0, placed "f(then)".toList 8, [], none, none⟩ .then_ (some (placed ['x'] 21)))) ∧
      third.step = some (frame.entered third "each" listed.chars (.eachBody 0
        ⟨placed "f(then)".toList 7, some (placed ['x'] 18), none, none⟩)) := by
  intro call item space frame bound listed first second third
  have awaited : frame.place second "await" = 8 := by decide +kernel
  have iterated : frame.place third "each" = 7 := by decide +kernel
  have binding : bound.bindingAt 8 = placed ['x'] 21 := by decide +kernel
  have context : listed.bindingAt 7 = placed ['x'] 18 := by decide +kernel
  refine ⟨?_, ?_, ?_⟩
  · exact ((header_split first frame).1 call ⟨[], by decide +kernel⟩).2 (by decide +kernel)
  · have step := ((header_split second frame).2.1 bound .then_ rfl (by decide +kernel)
      ⟨[], by decide +kernel⟩).2 (by decide +kernel)
    rw [awaited, binding] at step
    exact step
  · have step := (((header_split third frame).2.2 listed rfl ⟨[], by decide +kernel⟩).2
      (by decide +kernel)).2 (by decide +kernel)
    rw [iterated, context] at step
    exact step

/-- The words are among the tokens only directly behind a dot, `before` being the token before. -/
def areMembers (words : List String) (before : Option Token) : List Token → Bool
  | [] => true
  | t :: ts =>
    (!words.any t.isWord || before.any fun dot => dot.chars == ['.'] && dot.stop == t.start) &&
      areMembers words (some t) ts

/-- A member of the name is taken for the word: the subject ends at the dot, and what follows the
member is bound. -/
theorem member_taken_for_word :
    areMembers ["then", "catch"] none (topLevelTokens "p.then(f)".toList) = true ∧
      (parse "\x7b#await p.then(f)\x7d\x7b/await\x7d").errors = [] ∧
      (parse "\x7b#await p.then(f)\x7d\x7b/await\x7d").document.fragment.map
          (fun | .await head _ _ _ => some head | _ => none) =
        [some ⟨⟨0, 26⟩, ⟨⟨8, 10⟩, "p."⟩, some ⟨⟨14, 17⟩, "(f)"⟩, none⟩] ∧
      areMembers ["as"] none (topLevelTokens "a.as".toList) = true ∧
      (parse "\x7b#each a.as as x\x7d\x7b/each\x7d").errors = [] ∧
      (parse "\x7b#each a.as as x\x7d\x7b/each\x7d").document.fragment.map
          (fun | .each head _ _ => some head | _ => none) =
        [some ⟨⟨0, 24⟩, ⟨⟨7, 9⟩, "a."⟩, some ⟨⟨12, 16⟩, "as x"⟩, none, none⟩] := by
  decide +kernel

end TypedSvelte.Markup
