import Scim.AttributePath
import Scim.Operator
import Scim.Value

/-!
# `Scim.Node.Basic`: expressions as trees

A filter is a tree of comparisons joined by connectives, negated, or put to the members of a
multi-valued attribute in a value path. A PATCH path is an attribute or a single value path.

Connectives are built by `Node.connective?`, which takes two or more operands and splices operands
of the same kind into the result, so that `a and (b and c)` is one conjunction of three.
`Node.joined` is the case of two operands, in which there is always a result.

A value path is made by `ValuePath.make`, which puts the comparisons of its predicate below the
collection. It holds the path that it addresses: that of the collection, or that of a sub-attribute
of it. `ValuePath.collection` finds the collection again.

Trees are compared in two ways. `=` is decidable and tells all trees apart, and `Node.same` compares
floats as numbers. Most functions on trees have a twin for lists of trees, since a connective holds
a list. `Scim.Proofs.Node.Shape` has the induction that goes with them.
-/

set_option autoImplicit false

namespace Scim

/-- A comparison of an attribute with a literal. Exactly the operator `pr` has no literal. -/
structure Comparison where
  path : AttributePath
  operator : Operator
  value? : Option Value
  value?_isSome : value?.isSome = !operator.isUnary
  deriving DecidableEq, Repr

namespace Comparison

/-- The literal that goes with an operator: none for `pr`, and `null` when one is missing. -/
def literalFor (operator : Operator) (value? : Option Value) : Option Value :=
  if operator.isUnary then none else some (value?.getD .null)

/-- A comparison holds a literal exactly if its operator takes one, whatever value it is made with.
-/
theorem literalFor_isSome (operator : Operator) (value? : Option Value) :
    (literalFor operator value?).isSome = !operator.isUnary := by
  unfold literalFor
  split <;> simp_all

/-- The comparison with this operator. A literal is dropped for `pr`, and a missing one is `null`
for any other operator. -/
def make (path : AttributePath) (operator : Operator) (value? : Option Value) : Comparison :=
  ⟨path, operator, literalFor operator value?, literalFor_isSome operator value?⟩

/-- The comparison that asks whether an attribute has a value. -/
def present (path : AttributePath) : Comparison :=
  make path .pr none

/-- Equality of comparisons; floats are compared as numbers. -/
def same (a b : Comparison) : Bool :=
  a.path == b.path && a.operator == b.operator &&
    match a.value?, b.value? with
    | some v, some w => v.same w
    | none, none => true
    | _, _ => false

/-- The comparison of the attribute of the same name below a collection. -/
def rootedAt (collection : AttributePath) (c : Comparison) : Comparison :=
  { c with path := c.path.prefixedBy collection }

end Comparison

/-- The kinds of nodes. -/
inductive NodeKind where
  | attributePath
  | comparison
  | negation
  | conjunction
  | disjunction
  | valuePath
  deriving DecidableEq, Repr

/-- A node of an expression tree. -/
inductive Node where
  /-- An attribute on its own, which only a path expression can be. -/
  | attribute (path : AttributePath)
  /-- A comparison of an attribute with a literal. -/
  | comparison (comparison : Comparison)
  /-- `not (…)`. -/
  | negation (inner : Node)
  /-- Operands joined by `and` or by `or`. -/
  | connective (operator : LogicalOperator) (operands : List Node)
  /-- A predicate on the members of a multi-valued attribute, `attribute[…]`, possibly followed by
  a sub-attribute of those members. The path includes the sub-attribute. -/
  | valuePath (path : AttributePath) (predicate : Node) (subAttribute? : Option String)
  deriving Repr

namespace Node

/-- The kind of a node. -/
def kind : Node → NodeKind
  | .attribute _ => .attributePath
  | .comparison _ => .comparison
  | .negation _ => .negation
  | .connective .and _ => .conjunction
  | .connective .or _ => .disjunction
  | .valuePath _ _ _ => .valuePath

/-- The direct children of a node, in order. -/
def children : Node → List Node
  | .attribute _ | .comparison _ => []
  | .negation inner => [inner]
  | .connective _ operands => operands
  | .valuePath _ predicate _ => [predicate]

/-- The operator of a connective. -/
def logicalOperator? : Node → Option LogicalOperator
  | .connective operator _ => some operator
  | _ => none

/-- The operands of a connective. -/
def operands? : Node → Option (List Node)
  | .connective _ operands => some operands
  | _ => none

/-- What a node contributes to a connective: the operands of a connective of the same kind, and
else itself. -/
def spliced (operator : LogicalOperator) : Node → List Node
  | .connective operator' operands =>
    if operator' = operator then operands else [.connective operator' operands]
  | node => [node]

/-- Operands joined by an operator, those of the same kind spliced in. -/
def flattened (operator : LogicalOperator) (operands : List Node) : Node :=
  .connective operator (operands.flatMap (spliced operator))

/-- Operands joined by an operator, if there are at least two. -/
def connective? (operator : LogicalOperator) (operands : List Node) : Option Node :=
  if 2 ≤ operands.length then some (flattened operator operands) else none

/-- Two operands joined by an operator. -/
def joined (operator : LogicalOperator) (left right : Node) : Node :=
  flattened operator [left, right]

mutual
/-- Decides whether two trees are identical. -/
def decEq : (a b : Node) → Decidable (a = b)
  | .attribute p, .attribute q => decidable_of_iff (p = q) (by simp)
  | .comparison c, .comparison d => decidable_of_iff (c = d) (by simp)
  | .negation a, .negation b =>
    have := decEq a b
    decidable_of_iff (a = b) (by simp)
  | .connective o as, .connective o' bs =>
    have := decEqAll as bs
    decidable_of_iff (o = o' ∧ as = bs) (by simp)
  | .valuePath p a s, .valuePath q b t =>
    have := decEq a b
    decidable_of_iff (p = q ∧ a = b ∧ s = t) (by simp)
  | .attribute _, .comparison _ | .attribute _, .negation _ | .attribute _, .connective _ _
  | .attribute _, .valuePath _ _ _ | .comparison _, .attribute _ | .comparison _, .negation _
  | .comparison _, .connective _ _ | .comparison _, .valuePath _ _ _ | .negation _, .attribute _
  | .negation _, .comparison _ | .negation _, .connective _ _ | .negation _, .valuePath _ _ _
  | .connective _ _, .attribute _ | .connective _ _, .comparison _ | .connective _ _, .negation _
  | .connective _ _, .valuePath _ _ _ | .valuePath _ _ _, .attribute _
  | .valuePath _ _ _, .comparison _ | .valuePath _ _ _, .negation _
  | .valuePath _ _ _, .connective _ _ => isFalse nofun

/-- Decides whether two lists of trees are identical. -/
def decEqAll : (as bs : List Node) → Decidable (as = bs)
  | [], [] => isTrue rfl
  | [], _ :: _ | _ :: _, [] => isFalse nofun
  | a :: as, b :: bs =>
    have := decEq a b
    have := decEqAll as bs
    decidable_of_iff (a = b ∧ as = bs) (by simp)
end

/-- Trees are compared by `decEq`, which goes down both of them at once. -/
instance : DecidableEq Node := decEq

mutual
/-- Equality of trees; floats are compared as numbers. -/
def same : Node → Node → Bool
  | .attribute p, .attribute q => p == q
  | .comparison a, .comparison b => a.same b
  | .negation a, .negation b => same a b
  | .connective o as, .connective o' bs => o == o' && sameAll as bs
  | .valuePath p a s, .valuePath q b t => p == q && same a b && s == t
  | _, _ => false

/-- Equality of lists of trees. -/
def sameAll : List Node → List Node → Bool
  | [], [] => true
  | a :: as, b :: bs => same a b && sameAll as bs
  | _, _ => false
end

mutual
/-- The tree with every comparison below a collection. Only comparisons, negations and connectives
can be put there. -/
def rootedAt? (collection : AttributePath) : Node → Option Node
  | .comparison c => some (.comparison (c.rootedAt collection))
  | .negation inner => (rootedAt? collection inner).map .negation
  | .connective operator operands => (rootedAtAll? collection operands).map (.connective operator)
  | .attribute _ | .valuePath _ _ _ => none

/-- The trees of a list with every comparison below a collection. -/
def rootedAtAll? (collection : AttributePath) : List Node → Option (List Node)
  | [] => some []
  | node :: nodes => do
    let node ← rootedAt? collection node
    let nodes ← rootedAtAll? collection nodes
    return node :: nodes
end

end Node

/-- A predicate on the members of a multi-valued attribute. The path includes the sub-attribute, if
there is one, and every comparison of the predicate is below the collection. -/
structure ValuePath where
  path : AttributePath
  predicate : Node
  subAttribute? : Option String
  deriving DecidableEq, Repr

/-- The attribute whose members a value path of this path and sub-attribute selects. -/
def ValuePath.collectionOf (path : AttributePath) (subAttribute? : Option String) : AttributePath :=
  if subAttribute?.isSome then path.parent else path

namespace ValuePath

/-- The value path of a collection and a predicate that is already below it. -/
def make (collection : AttributePath) (predicate : Node) : ValuePath :=
  ⟨collection, predicate, none⟩

/-- The attribute whose members are selected. -/
def collection (v : ValuePath) : AttributePath :=
  collectionOf v.path v.subAttribute?

/-- The value path that targets a sub-attribute of the selected members. -/
def withSubAttribute (v : ValuePath) (name : String) : ValuePath :=
  ⟨v.collection.join name, v.predicate, some name⟩

/-- The value path as a tree. -/
def toNode (v : ValuePath) : Node :=
  .valuePath v.path v.predicate v.subAttribute?

/-- The value path that a tree is. -/
def ofNode? : Node → Option ValuePath
  | .valuePath path predicate subAttribute? => some ⟨path, predicate, subAttribute?⟩
  | _ => none

end ValuePath

/-- What a PATCH operation addresses. -/
inductive PathExpression where
  /-- An attribute. -/
  | attribute (path : AttributePath)
  /-- The selected members of a multi-valued attribute, or a sub-attribute of them. -/
  | value (valuePath : ValuePath)
  deriving DecidableEq, Repr

namespace PathExpression

/-- The addressed attribute, with the sub-attribute if there is one. -/
def path : PathExpression → AttributePath
  | .attribute path => path
  | .value v => v.path

/-- The value path, if the expression is one. -/
def valuePath? : PathExpression → Option ValuePath
  | .attribute _ => none
  | .value v => some v

/-- The path expression as a tree. -/
def toNode : PathExpression → Node
  | .attribute path => .attribute path
  | .value v => v.toNode

/-- Equality of path expressions; floats are compared as numbers. -/
def same (a b : PathExpression) : Bool :=
  match a, b with
  | .attribute p, .attribute q => p == q
  | .value v, .value w => v.toNode.same w.toNode
  | _, _ => false

end PathExpression

end Scim
