import Mathlib.Data.List.Basic
import Scim.Node.Traversal

/-!
# `Scim.Proofs.Node.Shape`: which nodes a tree holds

Trees are nested: a connective holds a list of trees. `Node.ind` is the induction that proofs about
them go by. The functions that go down a tree have a twin for lists, and a lemma `…_eq_map` or
`…_eq_flatMap` says that the twin is nothing of its own, so that no proof has to deal with both.

`Node.rootedAt?` does two things at once: it puts every comparison of a tree below a collection,
and it gives up on a tree that holds something else than comparisons, negations and connectives.
Here they are apart. `Node.under` is the tree with every comparison below the collection, a case of
`Node.mapPaths`, and `rootedAt?_eq_some_iff` says that rooting gives this tree if no node is in the
way, that is, if the tree is `Simple`.

The other sections say what becomes of the nodes of a tree:

* `kinds_mapPaths`: other paths leave every node of the kind it was.
* `mem_comparisons_iff`: the comparisons of a tree are its nodes of that kind.
* `joined_eq`: two trees are joined to the connective of what both contribute, `Node.spliced`. Its
  lemmas say what that is: the tree itself, or its operands if it is of the same kind. Nothing is
  below the joined tree that was not below one of the two (`mem_preorder_joined`).
-/

set_option autoImplicit false

namespace Scim.Node

/-- Induction over a tree: a connective is reached once all of its operands are. -/
@[elab_as_elim, induction_eliminator]
theorem ind {motive : Node → Prop} (attributePath : ∀ path, motive (.attribute path))
    (comparison : ∀ c, motive (.comparison c))
    (negation : ∀ inner, motive inner → motive (.negation inner))
    (connective : ∀ operator operands, (∀ operand ∈ operands, motive operand) →
      motive (.connective operator operands))
    (valuePath : ∀ path predicate subAttribute?, motive predicate →
      motive (.valuePath path predicate subAttribute?)) (node : Node) : motive node := by
  -- For the list inside of a connective the motive is that all of its members have the property.
  refine @Node.rec motive (fun nodes => ∀ node ∈ nodes, motive node)
    attributePath comparison negation connective valuePath ?_ ?_ node
  · intro node hnode
    cases hnode
  · intro node nodes hnode hnodes
    exact List.forall_mem_cons.mpr ⟨hnode, hnodes⟩

/-! ### Nodes below a node -/

/-- Below a connective are the nodes of its operands. -/
theorem mem_preorder_connective_iff {operator : LogicalOperator} {operands : List Node} {m : Node} :
    m ∈ (Node.connective operator operands).preorder ↔
      m = .connective operator operands ∨ ∃ operand ∈ operands, m ∈ operand.preorder := by
  rw [preorder, preorderAll_eq_flatMap, List.mem_cons, List.mem_flatMap]

/-- What is below a node below a tree is below the tree. -/
theorem mem_preorder_trans {node m k : Node} (hm : m ∈ node.preorder) (hk : k ∈ m.preorder) :
    k ∈ node.preorder := by
  induction node with
  | attributePath path => rwa [List.mem_singleton.mp hm] at hk
  | comparison c => rwa [List.mem_singleton.mp hm] at hk
  | negation inner ih =>
      rcases List.mem_cons.mp hm with rfl | hm
      · exact hk
      · exact List.mem_cons_of_mem _ (ih hm)
  | connective operator operands ih =>
      rcases mem_preorder_connective_iff.mp hm with rfl | ⟨operand, hoperand, hm⟩
      · exact hk
      · exact mem_preorder_connective_iff.mpr (.inr ⟨operand, hoperand, ih operand hoperand hm⟩)
  | valuePath path predicate subAttribute? ih =>
      rcases List.mem_cons.mp hm with rfl | hm
      · exact hk
      · exact List.mem_cons_of_mem _ (ih hm)

/-! ### Below a collection -/

mutual
/-- The tree with another path in every comparison outside of value paths. -/
def mapPaths (f : AttributePath → AttributePath) : Node → Node
  | .comparison c => .comparison { c with path := f c.path }
  | .negation inner => .negation (mapPaths f inner)
  | .connective operator operands => .connective operator (mapPathsAll f operands)
  | .attribute path => .attribute path
  | .valuePath path predicate subAttribute? => .valuePath path predicate subAttribute?

/-- The trees of a list with another path in every comparison. -/
def mapPathsAll (f : AttributePath → AttributePath) : List Node → List Node
  | [] => []
  | node :: nodes => mapPaths f node :: mapPathsAll f nodes
end

/-- The trees of a list are changed one by one. -/
@[simp]
theorem mapPathsAll_eq_map (f : AttributePath → AttributePath) (nodes : List Node) :
    mapPathsAll f nodes = nodes.map (mapPaths f) := by
  induction nodes with
  | nil => rfl
  | cons node nodes ih => rw [mapPathsAll, ih, List.map_cons]

/-- The tree with every comparison below a collection. -/
def under (collection : AttributePath) : Node → Node :=
  mapPaths (·.prefixedBy collection)

/-- Only comparisons, negations and connectives can be put below a collection. -/
def Simple (node : Node) : Prop :=
  ∀ m ∈ node.preorder, m.kind ≠ .attributePath ∧ m.kind ≠ .valuePath

/-- A negation is simple if what it negates is. -/
theorem simple_negation_iff {inner : Node} : Simple (.negation inner) ↔ Simple inner := by
  simp [Simple, preorder, kind]

/-- A connective is simple if its operands are. -/
theorem simple_connective_iff {operator : LogicalOperator} {operands : List Node} :
    Simple (.connective operator operands) ↔ ∀ operand ∈ operands, Simple operand := by
  -- The connective itself is of neither kind.
  have hkind : ∀ k, k = NodeKind.attributePath ∨ k = .valuePath →
      (Node.connective operator operands).kind ≠ k := by
    rintro k (rfl | rfl) <;> cases operator <;> simp [kind]
  constructor
  · intro h operand hoperand m hm
    exact h m (mem_preorder_connective_iff.mpr (.inr ⟨operand, hoperand, hm⟩))
  · intro h m hm
    rcases mem_preorder_connective_iff.mp hm with rfl | ⟨operand, hoperand, hm⟩
    · exact ⟨hkind _ (.inl rfl), hkind _ (.inr rfl)⟩
    · exact h operand hoperand m hm

/-- A list of trees is rooted if each of them is, for trees of which that is known. -/
theorem rootedAtAll?_eq_some_iff {collection : AttributePath} {nodes nodes' : List Node}
    (h : ∀ node ∈ nodes, ∀ node', rootedAt? collection node = some node' ↔
      Simple node ∧ node' = under collection node) :
    rootedAtAll? collection nodes = some nodes' ↔
      (∀ node ∈ nodes, Simple node) ∧ nodes' = nodes.map (under collection) := by
  induction nodes generalizing nodes' with
  | nil => simp [rootedAtAll?, eq_comm]
  | cons node nodes ih =>
      have hnode := h node List.mem_cons_self
      have hnodes := fun ns => @ih ns fun n hn => h n (List.mem_cons_of_mem node hn)
      simp only [rootedAtAll?, bind, Option.bind_eq_some_iff, hnode, hnodes, pure,
        Option.some.injEq, List.forall_mem_cons, List.map_cons]
      constructor
      · rintro ⟨_, ⟨hs, rfl⟩, _, ⟨hss, rfl⟩, rfl⟩
        exact ⟨⟨hs, hss⟩, rfl⟩
      · rintro ⟨⟨hs, hss⟩, rfl⟩
        exact ⟨_, ⟨hs, rfl⟩, _, ⟨hss, rfl⟩, rfl⟩

/-- Rooting puts the tree below the collection, if there is nothing in it but comparisons, negations
and connectives. -/
theorem rootedAt?_eq_some_iff {collection : AttributePath} {node node' : Node} :
    rootedAt? collection node = some node' ↔ Simple node ∧ node' = under collection node := by
  induction node generalizing node' with
  | attributePath path => simp [rootedAt?, Simple, preorder, kind]
  | comparison c =>
      simp [rootedAt?, Simple, preorder, kind, under, mapPaths, Comparison.rootedAt, eq_comm]
  | negation inner ih =>
      simp only [rootedAt?, Option.map_eq_some_iff, ih, simple_negation_iff, under, mapPaths]
      constructor
      · rintro ⟨_, ⟨hs, rfl⟩, rfl⟩
        exact ⟨hs, rfl⟩
      · rintro ⟨hs, rfl⟩
        exact ⟨_, ⟨hs, rfl⟩, rfl⟩
  | connective operator operands ih =>
      simp only [rootedAt?, Option.map_eq_some_iff,
        rootedAtAll?_eq_some_iff fun node hnode node' => @ih node hnode node',
        simple_connective_iff, under, mapPaths, mapPathsAll_eq_map]
      constructor
      · rintro ⟨_, ⟨hs, rfl⟩, rfl⟩
        exact ⟨hs, rfl⟩
      · rintro ⟨hs, rfl⟩
        exact ⟨_, ⟨hs, rfl⟩, rfl⟩
  | valuePath path predicate subAttribute? ih => simp [rootedAt?, Simple, preorder, kind]

/-! ### Kinds of nodes -/

/-- Other paths leave all nodes of the kind they were, in their order. -/
theorem kinds_mapPaths (f : AttributePath → AttributePath) (node : Node) :
    (mapPaths f node).preorder.map kind = node.preorder.map kind := by
  induction node with
  | attributePath path => rfl
  | comparison c => rfl
  | negation inner ih => simp [mapPaths, preorder, kind, ih]
  | connective operator operands ih =>
      have hoperands : ((operands.map (mapPaths f)).flatMap preorder).map kind
          = (operands.flatMap preorder).map kind := by
        rw [List.flatMap_map, List.map_flatMap, List.map_flatMap]
        exact List.flatMap_congr fun operand hoperand => ih operand hoperand
      cases operator <;> simp [mapPaths, preorder, kind, hoperands]
  | valuePath path predicate subAttribute? ih => rfl

/-- What is below a tree with other paths has its kind from a node below the tree. -/
theorem exists_kind_eq_of_mem_mapPaths {f : AttributePath → AttributePath} {node m : Node}
    (hm : m ∈ (mapPaths f node).preorder) : ∃ m' ∈ node.preorder, m'.kind = m.kind := by
  have hkind := List.mem_map_of_mem (f := kind) hm
  rw [kinds_mapPaths] at hkind
  exact List.mem_map.mp hkind

/-! ### Comparisons -/

/-- The comparisons of a connective are those of its operands. -/
theorem comparisons_connective (operator : LogicalOperator) (operands : List Node) :
    (Node.connective operator operands).comparisons = operands.flatMap comparisons := by
  rw [comparisons, preorder, preorderAll_eq_flatMap, List.filterMap_cons_none rfl,
    List.filterMap_flatMap]
  rfl

/-- The comparisons of a tree are its nodes of that kind. -/
theorem mem_comparisons_iff {node : Node} {c : Comparison} :
    c ∈ node.comparisons ↔ .comparison c ∈ node.preorder := by
  unfold comparisons
  rw [List.mem_filterMap]
  constructor
  · rintro ⟨m, hm, hc⟩
    cases m <;> simp only [comparison?, Option.some.injEq, reduceCtorEq] at hc
    rwa [← hc]
  · intro h
    exact ⟨_, h, rfl⟩

/-! ### Joining -/

/-- Two trees are joined to a connective of what each of them contributes. -/
theorem joined_eq (operator : LogicalOperator) (left right : Node) :
    joined operator left right
      = .connective operator (left.spliced operator ++ right.spliced operator) := by
  simp [joined, flattened]

/-- A tree of another kind contributes itself. -/
theorem spliced_of_ne {operator : LogicalOperator} {node : Node}
    (h : node.logicalOperator? ≠ some operator) : node.spliced operator = [node] := by
  cases node with
  | connective operator' operands =>
      have hne : operator' ≠ operator := by simpa [logicalOperator?] using h
      simp [spliced, hne]
  | _ => rfl

/-- Operands of other kinds stay as they are. -/
theorem flattened_of_ne {operator : LogicalOperator} {operands : List Node}
    (h : ∀ operand ∈ operands, operand.logicalOperator? ≠ some operator) :
    flattened operator operands = .connective operator operands := by
  rw [flattened, List.flatMap_congr fun o ho => spliced_of_ne (h o ho), List.flatMap_singleton']

/-- A connective contributes its operands to one of its kind. -/
theorem spliced_connective (operator : LogicalOperator) (operands : List Node) :
    (Node.connective operator operands).spliced operator = operands := by
  simp [spliced]

/-- What a tree contributes to a connective: at least one operand, and none of its kind. A
connective of the kind gives up its operands, and everything else stays whole. -/
theorem forall_mem_spliced {P : Node → Prop} {operator : LogicalOperator} {node : Node}
    (hnode : P node) (hoperands : ∀ operands, node = .connective operator operands →
      2 ≤ operands.length ∧ ∀ operand ∈ operands,
        operand.logicalOperator? ≠ some operator ∧ P operand) :
    0 < (node.spliced operator).length ∧ ∀ part ∈ node.spliced operator,
      part.logicalOperator? ≠ some operator ∧ P part := by
  -- A connective of the same kind contributes its operands, and any other node itself.
  by_cases hsame : node.logicalOperator? = some operator
  · cases node with
    | connective operator' operands =>
        cases hsame
        obtain ⟨htwo, hall⟩ := hoperands operands rfl
        rw [spliced_connective]
        exact ⟨by omega, hall⟩
    | _ => contradiction
  · rw [spliced_of_ne hsame]
    refine ⟨by simp, fun part hpart => ?_⟩
    rw [List.mem_singleton.mp hpart]
    exact ⟨hsame, hnode⟩

/-- What is below a contribution is below the tree that makes it. -/
theorem mem_preorder_of_spliced {operator : LogicalOperator} {node part m : Node}
    (hpart : part ∈ node.spliced operator) (hm : m ∈ part.preorder) : m ∈ node.preorder := by
  unfold spliced at hpart
  split at hpart
  · next operator' operands =>
      split at hpart
      · exact mem_preorder_connective_iff.mpr (.inr ⟨part, hpart, hm⟩)
      · rwa [List.mem_singleton.mp hpart] at hm
  · rwa [List.mem_singleton.mp hpart] at hm

/-- Joining adds no node but the connective itself. -/
theorem mem_preorder_joined {operator : LogicalOperator} {left right m : Node}
    (hm : m ∈ (joined operator left right).preorder) :
    m = joined operator left right ∨ m ∈ left.preorder ∨ m ∈ right.preorder := by
  rw [joined_eq] at hm ⊢
  rcases mem_preorder_connective_iff.mp hm with rfl | ⟨part, hpart, hm⟩
  · exact .inl rfl
  · rcases List.mem_append.mp hpart with hpart | hpart
    · exact .inr (.inl (mem_preorder_of_spliced hpart hm))
    · exact .inr (.inr (mem_preorder_of_spliced hpart hm))

end Scim.Node
