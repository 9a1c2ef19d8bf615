import Scim.Proofs.Node.Writable

/-!
# `Scim.Proofs.Node.WellFormed`: what every tree has in common

A connective has two operands or more, and none of its own kind. `Node.WellFormed` says this of
every node of a tree, and with it what comparisons and paths are like: `Sound` is what holds of a
node on its own, and a tree is well formed if it is sound everywhere.

`Node.flattened` splices only one level: an operand of an operand stays as it is. That is enough if
the operands are well formed before (`wellFormed_flattened`), so the invariant has to be kept by
everything that builds a tree.

* `wellFormed_negation_iff`, `wellFormed_valuePath_iff`, `wellFormed_connective_iff` say for each
  kind of node what it takes, given what is below it. Comparisons and attributes are always well
  formed.
* `WellFormed.child`: going down keeps it.
* `WellFormed.spliced` is the step for connectives: what a well-formed tree contributes is at least
  one operand, and none of the kind.
* `Built.wellFormed`: a tree is well formed if the predicates of its value paths are.
-/

set_option autoImplicit false

namespace Scim

namespace Node

/-- What holds of a node on its own. -/
structure Sound (m : Node) : Prop where
  /-- A conjunction has at least two children, and none of them is a conjunction. The same goes for
  disjunctions. -/
  connective : ∀ operator ∈ m.logicalOperator?, 2 ≤ m.children.length ∧
    ∀ child ∈ m.children, child.logicalOperator? ≠ some operator
  /-- Exactly `pr` has no literal. -/
  comparison : ∀ c ∈ m.comparison?, (c.value? = none ↔ c.operator = .pr)
  /-- A path has at least one name. -/
  path : ∀ path ∈ m.path?, 1 ≤ path.names.length

/-- A tree that is sound everywhere. -/
def WellFormed (n : Node) : Prop :=
  ∀ m ∈ n.preorder, m.Sound

/-! ### Single nodes -/

/-- A path has at least one name. -/
theorem one_le_length_names (p : AttributePath) : 1 ≤ p.names.length := by
  simp [AttributePath.names]

/-- A comparison has no literal exactly if it asks whether the attribute is there. -/
theorem value?_eq_none_iff (c : Comparison) : c.value? = none ↔ c.operator = .pr := by
  rw [← Option.not_isSome_iff_eq_none, c.value?_isSome]
  cases c.operator <;> simp [Operator.isUnary]

/-- An attribute on its own is well formed. -/
theorem wellFormed_attribute (path : AttributePath) : (Node.attribute path).WellFormed := by
  intro m hm
  rw [List.mem_singleton.mp hm]
  exact ⟨by simp [logicalOperator?], by simp [comparison?], fun p _ => one_le_length_names p⟩

/-- So is a comparison. -/
theorem wellFormed_comparison (c : Comparison) : (Node.comparison c).WellFormed := by
  intro m hm
  rw [List.mem_singleton.mp hm]
  exact ⟨by simp [logicalOperator?], fun c _ => value?_eq_none_iff c,
    fun p _ => one_le_length_names p⟩

/-- A negation is if what it negates is. -/
theorem wellFormed_negation_iff {inner : Node} :
    (Node.negation inner).WellFormed ↔ inner.WellFormed := by
  have hself : (Node.negation inner).Sound :=
    ⟨by simp [logicalOperator?], by simp [comparison?], by simp [path?]⟩
  simp [WellFormed, preorder, hself]

/-- A value path is if its predicate is. -/
theorem wellFormed_valuePath_iff {path : AttributePath} {predicate : Node}
    {subAttribute? : Option String} :
    (Node.valuePath path predicate subAttribute?).WellFormed ↔ predicate.WellFormed := by
  have hself : (Node.valuePath path predicate subAttribute?).Sound :=
    ⟨by simp [logicalOperator?], by simp [comparison?], fun p _ => one_le_length_names p⟩
  simp [WellFormed, preorder, hself]

/-- A connective is if its operands are, there are two or more, and none is of its own kind. -/
theorem wellFormed_connective_iff {operator : LogicalOperator} {operands : List Node} :
    (Node.connective operator operands).WellFormed ↔
      2 ≤ operands.length ∧ ∀ operand ∈ operands,
        operand.logicalOperator? ≠ some operator ∧ operand.WellFormed := by
  constructor
  · intro h
    obtain ⟨htwo, hkind⟩ := (h _ List.mem_cons_self).connective operator rfl
    refine ⟨htwo, fun operand hoperand => ⟨hkind operand hoperand, fun m hm => ?_⟩⟩
    exact h m (mem_preorder_connective_iff.mpr (.inr ⟨operand, hoperand, hm⟩))
  · rintro ⟨htwo, hoperands⟩ m hm
    rcases mem_preorder_connective_iff.mp hm with rfl | ⟨operand, hoperand, hm⟩
    · refine ⟨?_, by simp [comparison?], by simp [path?]⟩
      rintro _ ⟨rfl⟩
      exact ⟨htwo, fun child hchild => (hoperands child hchild).1⟩
    · exact (hoperands operand hoperand).2 m hm

/-- What is well formed has well-formed children. -/
theorem WellFormed.child {n m : Node} (h : n.WellFormed) (hm : m ∈ n.children) : m.WellFormed := by
  induction n with
  | attributePath path => cases hm
  | comparison c => cases hm
  | negation inner =>
      rw [List.mem_singleton.mp hm]
      exact wellFormed_negation_iff.mp h
  | connective operator operands => exact ((wellFormed_connective_iff.mp h).2 m hm).2
  | valuePath path predicate subAttribute? =>
      rw [List.mem_singleton.mp hm]
      exact wellFormed_valuePath_iff.mp h

/-! ### Joining operands -/

/-- A well-formed tree contributes at least one operand, and none of the kind of the connective. -/
theorem WellFormed.spliced {n : Node} (h : n.WellFormed) (operator : LogicalOperator) :
    0 < (n.spliced operator).length ∧ ∀ operand ∈ n.spliced operator,
      operand.logicalOperator? ≠ some operator ∧ operand.WellFormed := by
  refine forall_mem_spliced h ?_
  rintro operands rfl
  exact wellFormed_connective_iff.mp h

/-- Two or more well-formed trees are flattened to one. -/
theorem wellFormed_flattened {operator : LogicalOperator} {operands : List Node}
    (htwo : 2 ≤ operands.length) (h : ∀ operand ∈ operands, operand.WellFormed) :
    (flattened operator operands).WellFormed := by
  -- Splicing leaves at least one operand for each that was there.
  have hlength : ∀ nodes : List Node, (∀ node ∈ nodes, node.WellFormed) →
      nodes.length ≤ (nodes.flatMap (spliced operator)).length := by
    intro nodes hnodes
    induction nodes with
    | nil => simp
    | cons node nodes ih =>
        have hfirst := ((hnodes node List.mem_cons_self).spliced operator).1
        have hrest := ih fun n hn => hnodes n (List.mem_cons_of_mem node hn)
        rw [List.flatMap_cons, List.length_append, List.length_cons]
        omega
  refine wellFormed_connective_iff.mpr ⟨Nat.le_trans htwo (hlength operands h), ?_⟩
  intro part hpart
  obtain ⟨operand, hoperand, hpart⟩ := List.mem_flatMap.mp hpart
  exact ((h operand hoperand).spliced operator).2 part hpart

/-- So a connective that is built from well-formed trees is well formed. -/
theorem wellFormed_of_connective? {operator : LogicalOperator} {operands : List Node} {n : Node}
    (h : ∀ operand ∈ operands, operand.WellFormed) (hn : connective? operator operands = some n) :
    n.WellFormed := by
  unfold connective? at hn
  split at hn
  · next htwo =>
      cases hn
      exact wellFormed_flattened htwo h
  · contradiction

/-- A tree is well formed if the predicates of its value paths are. -/
theorem Built.wellFormed {C : Comparison → Prop} {V : AttributePath → Node → Prop} {n : Node}
    (h : n.Built C V) (hV : ∀ path predicate, V path predicate → predicate.WellFormed) :
    n.WellFormed := by
  induction h with
  | comparison hc => exact wellFormed_comparison _
  | negation hinner ih => exact wellFormed_negation_iff.mpr ih
  | connective htwo hkind hoperands ih =>
      exact wellFormed_connective_iff.mpr ⟨htwo, fun o ho => ⟨hkind o ho, ih o ho⟩⟩
  | valuePath hv => exact wellFormed_valuePath_iff.mpr (hV _ _ hv)

end Node

end Scim
