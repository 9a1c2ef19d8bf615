import Scim.Node.Basic

/-!
# `Scim.Node.Render`: trees as text

`Node.render` writes a tree as an expression in its usual form: keywords in lower case, one space
around them, parentheses around a connective that is an operand of another and around what is
negated. Comparisons in a value path are written relative to its collection, which is why
`renderIn` is told which collection a tree stands in.

A tree is not always read back from its text. The schema of a comparison is dropped in a value path,
and a float can be infinite. `Scim.Proofs.Parse.RoundTrip` and `Scim.Proofs.Parse.Canonical` say
when it is.
-/

set_option autoImplicit false

namespace Scim

/-- A comparison as text. Inside a value path its attribute is written relative to the
collection. -/
def Comparison.render (collection? : Option AttributePath) (c : Comparison) : String :=
  let path := (collection?.bind c.path.relativeTo).getD c.path
  let test := path.render ++ " " ++ c.operator.keyword
  match c.value? with
  | some value => test ++ " " ++ value.render
  | none => test

namespace Node

/-- The text of an operand as it stands in a connective: a connective among them is put in
parentheses. -/
def asOperand (operand : Node) (text : String) : String :=
  if operand.logicalOperator?.isSome then "(" ++ text ++ ")" else text

mutual
/-- A tree as text, inside a value path of this collection if there is one. -/
def renderIn (collection? : Option AttributePath) : Node → String
  | .attribute path => path.render
  | .comparison c => c.render collection?
  | .negation inner => "not (" ++ renderIn collection? inner ++ ")"
  | .connective operator operands => renderOperands collection? operator operands
  | .valuePath path predicate subAttribute? =>
    let collection := ValuePath.collectionOf path subAttribute?
    let selected := collection.render ++ "[" ++ renderIn (some collection) predicate ++ "]"
    match subAttribute? with
    | some name => selected ++ "." ++ name
    | none => selected

/-- Operands as text, with the operator between them. -/
def renderOperands (collection? : Option AttributePath) (operator : LogicalOperator) :
    List Node → String
  | [] => ""
  | [operand] => asOperand operand (renderIn collection? operand)
  | operand :: operands =>
    asOperand operand (renderIn collection? operand) ++ " " ++ operator.keyword ++ " " ++
      renderOperands collection? operator operands
end

/-- A tree as an expression. -/
def render (node : Node) : String :=
  node.renderIn none

end Node

/-- A path expression as text. -/
def PathExpression.render (e : PathExpression) : String :=
  e.toNode.render

end Scim
