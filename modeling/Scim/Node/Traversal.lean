import Scim.Node.Basic

/-!
# `Scim.Node.Traversal`: walking over a tree

`Node.preorder` lists a node and everything below it, parents before their children and children in
order. What a tree mentions is read off that list.
-/

set_option autoImplicit false

namespace Scim.Node

mutual
/-- A node, then the nodes below it, child by child. -/
def preorder : Node → List Node
  | .attribute path => [.attribute path]
  | .comparison c => [.comparison c]
  | .negation inner => .negation inner :: preorder inner
  | .connective operator operands => .connective operator operands :: preorderAll operands
  | .valuePath path predicate sub => .valuePath path predicate sub :: preorder predicate

/-- The nodes of one tree after the other. -/
def preorderAll : List Node → List Node
  | [] => []
  | node :: nodes => preorder node ++ preorderAll nodes
end

/-- The nodes of a list of trees are those of each of them in turn. -/
@[simp]
theorem preorderAll_eq_flatMap (nodes : List Node) :
    preorderAll nodes = nodes.flatMap preorder := by
  induction nodes with
  | nil => rfl
  | cons node nodes ih => simp [preorderAll, ih]

mutual
/-- The number of nodes on the longest way from a node down to a leaf. -/
def depth : Node → Nat
  | .attribute _ | .comparison _ => 1
  | .negation inner => 1 + depth inner
  | .connective _ operands => 1 + depthAll operands
  | .valuePath _ predicate _ => 1 + depth predicate

/-- The depth of the deepest of some trees, and zero for none. -/
def depthAll : List Node → Nat
  | [] => 0
  | node :: nodes => max (depth node) (depthAll nodes)
end

/-- The attribute path that a node itself holds. -/
def path? : Node → Option AttributePath
  | .attribute path => some path
  | .comparison c => some c.path
  | .valuePath path _ _ => some path
  | .negation _ | .connective _ _ => none

/-- The comparison that a node is. -/
def comparison? : Node → Option Comparison
  | .comparison c => some c
  | _ => none

/-- Every attribute path in a tree, in the order of the text. A value path comes before the paths
of its predicate. -/
def attributePaths (node : Node) : List AttributePath :=
  node.preorder.filterMap path?

/-- Every comparison in a tree, in the order of the text. -/
def comparisons (node : Node) : List Comparison :=
  node.preorder.filterMap comparison?

end Scim.Node
