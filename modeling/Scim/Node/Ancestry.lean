import Scim.Node.Basic

/-!
# `Scim.Node.Ancestry`: parents of the nodes of a tree

Nodes hold their children but do not know their parents. An `Ancestry` walks over a tree once and
records for every node the number of its parent, nodes being numbered in the order of the walk.

Two nodes of a tree can be equal and still stand at different places, so questions are put about
*occurrences*: which tree, and which way down from its root. An occurrence of another tree, even of
an equal one, has no parent here.

* `record` is the walk. It starts with the number of the node and counts up from there.
* `parent?` and `ancestors` follow the numbers up, one step or all the way to the root.
* `hasParent` asks whether a parent, or any ancestor, is of some kind (`ParentQuery`).

`Scim.Proofs.Node.Ancestry` shows that all of them agree with the tree.
-/

set_option autoImplicit false

namespace Scim

/-- The node at the end of a way down the tree, which gives the index of a child at each step. -/
def Node.get? : Node → List Nat → Option Node
  | node, [] => some node
  | node, index :: address => node.children[index]?.bind (·.get? address)

/-- A node at its place in one of possibly many trees. -/
structure Occurrence where
  /-- Which tree the node is taken from. -/
  tree : Nat
  /-- The way down from the root. -/
  address : List Nat
  deriving DecidableEq, Repr

/-- What is recorded about a node. -/
structure Ancestry.Entry where
  /-- The way down to the node. -/
  address : List Nat
  /-- The node. -/
  node : Node
  /-- The number of its parent. -/
  parent? : Option Nat

/-- The nodes of a tree, each with the number of its parent. -/
structure Ancestry where
  /-- Which tree this is. -/
  tree : Nat
  /-- What is recorded, in the order of the walk. -/
  entries : List Ancestry.Entry

namespace Ancestry

mutual
/-- The entries for a node and everything below it, when the node gets the given number. -/
def record (address : List Nat) (parent? : Option Nat) (number : Nat) : Node → List Entry
  | .attribute path => [⟨address, .attribute path, parent?⟩]
  | .comparison c => [⟨address, .comparison c, parent?⟩]
  | .negation inner =>
    ⟨address, .negation inner, parent?⟩ ::
      record (address ++ [0]) (some number) (number + 1) inner
  | .connective operator operands =>
    ⟨address, .connective operator operands, parent?⟩ ::
      recordAll address number 0 (number + 1) operands
  | .valuePath path predicate sub =>
    ⟨address, .valuePath path predicate sub, parent?⟩ ::
      record (address ++ [0]) (some number) (number + 1) predicate

/-- The entries for children of a node from the given index on, when the next number is given. -/
def recordAll (address : List Nat) (parent index number : Nat) : List Node → List Entry
  | [] => []
  | node :: nodes =>
    let entries := record (address ++ [index]) (some parent) number node
    entries ++ recordAll address parent (index + 1) (number + entries.length) nodes
end

/-- Walks over a tree. -/
def ofTree (tree : Nat) (root : Node) : Ancestry :=
  ⟨tree, record [] none 0 root⟩

/-- The number of recorded nodes. -/
def length (a : Ancestry) : Nat :=
  a.entries.length

/-- The root of the tree. -/
def root (a : Ancestry) : Occurrence :=
  ⟨a.tree, []⟩

/-- The number of an occurrence, if it belongs to the tree. -/
def number? (a : Ancestry) (o : Occurrence) : Option Nat :=
  if o.tree = a.tree then a.entries.findIdx? fun e => e.address == o.address else none

/-- Whether an occurrence belongs to the tree. -/
def contains (a : Ancestry) (o : Occurrence) : Bool :=
  (a.number? o).isSome

/-- The number of the parent of the node of a number. -/
def parentNumber? (a : Ancestry) (number : Nat) : Option Nat :=
  a.entries[number]?.bind Entry.parent?

/-- The numbers of the ancestors of the node of a number, the nearest first. A parent has been
walked over before its children, so numbers only fall. -/
def ancestorNumbers (a : Ancestry) (number : Nat) : List Nat :=
  match a.parentNumber? number with
  | none => []
  | some parent => if parent < number then parent :: ancestorNumbers a parent else []
termination_by number

/-- The occurrence of a number. -/
def occurrence? (a : Ancestry) (number : Nat) : Option Occurrence :=
  a.entries[number]?.map fun e => ⟨a.tree, e.address⟩

/-- The parent of an occurrence: none for the root and for what does not belong to the tree. -/
def parent? (a : Ancestry) (o : Occurrence) : Option Occurrence :=
  ((a.number? o).bind a.parentNumber?).bind a.occurrence?

/-- The ancestors of an occurrence, the nearest first. -/
def ancestors (a : Ancestry) (o : Occurrence) : List Occurrence :=
  match a.number? o with
  | some number => (a.ancestorNumbers number).filterMap a.occurrence?
  | none => []

/-- The kind of an occurrence of the tree. -/
def kind? (a : Ancestry) (o : Occurrence) : Option NodeKind :=
  (a.number? o).bind fun number => a.entries[number]?.map (·.node.kind)

/-- What a parent has to be. -/
inductive ParentQuery where
  /-- Anything. -/
  | any
  /-- A node of this kind. -/
  | ofKind (kind : NodeKind)
  /-- This very node. -/
  | exactly (occurrence : Occurrence)
  deriving DecidableEq, Repr

/-- Whether an occurrence of the tree is what is asked for. -/
def satisfies (a : Ancestry) (query : ParentQuery) (o : Occurrence) : Bool :=
  match query with
  | .any => true
  | .ofKind kind => a.kind? o == some kind
  | .exactly expected => o == expected

/-- Whether the parent of an occurrence, or any ancestor of it, is what is asked for. -/
def hasParent (a : Ancestry) (o : Occurrence) (query : ParentQuery) (anyAncestor : Bool) : Bool :=
  if anyAncestor then (a.ancestors o).any (a.satisfies query)
  else (a.parent? o).any (a.satisfies query)

end Ancestry

end Scim
