import TypedSvelte.Markup.Document
import TypedSvelte.Markup.Token

/-!
# Block headers

The words inside the header of a block: `as` in `{#each}`, `then` and `catch` in `{#await}`, `if`
after `{:else}`. A word counts only outside of all brackets.
-/
namespace TypedSvelte.Markup

/-- The parts of `items as item, i (key)`. -/
structure EachHeader where
  expression : Expression
  context : Option Expression
  index : Option Expression
  key : Option Expression
  deriving DecidableEq, Repr, Inhabited

/-- The context and the index of a binding between two byte offsets of a header, which its first
comma separates. -/
def splitBinding (header : Expression) (start stop : Nat) : Option Expression × Option Expression :=
  match findComma? ((Span.mk start stop).text header.text).toList with
  | some comma =>
    (header.slice? start (start + comma), header.slice? (start + comma + 1) stop)
  | none => (header.slice? start stop, none)

/-- Splits a header at its first `as`. A parenthesised group at the end is the key. If nothing
stands before `as`, the whole header is the expression. -/
def EachHeader.split (header : Expression) : EachHeader :=
  match findWord? header.chars "as" with
  | none => ⟨header, none, none, none⟩
  | some word =>
    let size := header.text.utf8ByteSize
    let after := ((Span.mk word.stop size).text header.text).toList
    let (bindingStop, key) :=
      match trailingGroup? after with
      | some group =>
        (word.stop + group.start,
          header.slice? (word.stop + group.start + 1) (word.stop + group.stop - 1))
      | none => (size, none)
    let (context, index) := splitBinding header word.stop bindingStop
    ⟨(header.slice? 0 word.start).getD header, context, index, key⟩

/-- The two branches that an `{#await}` header may open at once. -/
inductive AwaitBranch where
  | then_ | catch_
  deriving DecidableEq, Repr, Inhabited

def AwaitBranch.word : AwaitBranch → String
  | .then_ => "then"
  | .catch_ => "catch"

/-- An `{#await}` header: its subject and, in the short form, the branch with its binding. -/
structure AwaitHeader where
  expression : Expression
  branch : Option (AwaitBranch × Option Expression)
  deriving DecidableEq, Repr, Inhabited

/-- Splits a header at its first `then`, or else at its first `catch`. If nothing stands before the
word, the whole header is the subject. -/
def AwaitHeader.split (header : Expression) : AwaitHeader :=
  let at? (branch : AwaitBranch) : Option AwaitHeader :=
    (findWord? header.chars branch.word).map fun word =>
      ⟨(header.slice? 0 word.start).getD header, some (branch, header.after? word.stop)⟩
  ((at? .then_).orElse fun _ => at? .catch_).getD ⟨header, none⟩

/-- The condition of an `{:else if condition}`, given the text after `else`. -/
def elseIfCondition? (rest : Expression) : Option Expression :=
  match findWord? rest.chars "if" with
  | some word => if word.start == 0 then rest.after? word.stop else none
  | none => none

end TypedSvelte.Markup
