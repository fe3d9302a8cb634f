import TypedSvelte.Markup.Document

/-!
# Walking through templates

The elements and the expressions of a template in document order.
-/
namespace TypedSvelte.Markup

mutual

def Node.elements : Node → List ElementHead
  | .element head children => head :: elementsOf children
  | .text _ | .comment _ | .mustache _ _ | .tag _ _ _ => []
  | .ifBlock _ _ consequent alternate => elementsOf consequent ++ alternate.elements
  | .each _ body fallback => elementsOf body ++ elementsOfBranch fallback
  | .await _ pending onThen onCatch =>
    elementsOf pending ++ elementsOfBranch onThen ++ elementsOfBranch onCatch
  | .key _ _ body => elementsOf body

def elementsOf : List Node → List ElementHead
  | [] => []
  | node :: rest => node.elements ++ elementsOf rest

/-- The elements of a branch, if it is there. -/
def elementsOfBranch : Option (List Node) → List ElementHead
  | none => []
  | some nodes => elementsOf nodes

def Alternate.elements : Alternate → List ElementHead
  | .absent => []
  | .otherwise nodes => elementsOf nodes
  | .elseIf _ _ consequent alternate => elementsOf consequent ++ alternate.elements

end

def Attribute.expressions : Attribute → List Expression
  | .plain a => a.value.filterMap fun
    | .expression e => some e
    | .text _ => none
  | .shorthand e | .spread e => [e]
  | .directive d => d.value.toList

mutual

/-- The expressions of a node at any depth, the bindings of `{#await}` branches aside. -/
def Node.expressions : Node → List Expression
  | .element head children =>
    head.attributes.flatMap Attribute.expressions ++ expressionsOf children
  | .text _ | .comment _ => []
  | .mustache _ e => [e]
  | .tag _ _ e => e.toList
  | .ifBlock _ condition consequent alternate =>
    condition :: expressionsOf consequent ++ alternate.expressions
  | .each head body fallback =>
    head.expression :: head.context.toList ++ head.index.toList ++ head.key.toList
      ++ expressionsOf body ++ expressionsOfBranch fallback
  | .await head pending onThen onCatch =>
    head.expression :: expressionsOf pending ++ expressionsOfBranch onThen
      ++ expressionsOfBranch onCatch
  | .key _ e body => e :: expressionsOf body

def expressionsOf : List Node → List Expression
  | [] => []
  | node :: rest => node.expressions ++ expressionsOf rest

/-- The expressions of a branch, if it is there. -/
def expressionsOfBranch : Option (List Node) → List Expression
  | none => []
  | some nodes => expressionsOf nodes

def Alternate.expressions : Alternate → List Expression
  | .absent => []
  | .otherwise nodes => expressionsOf nodes
  | .elseIf _ condition consequent alternate =>
    condition :: expressionsOf consequent ++ alternate.expressions

end

end TypedSvelte.Markup
