import Scim.Proofs.Node.Shape

/-!
# `Scim.Proofs.Node.Grouping`: how operands are grouped does not matter

`Node.connective?` splices operands of its own kind, so a connective as an operand is as good as its
operands one by one. This is associativity, for any number of operands on either side.

Splicing also loses nothing. What a tree mentions is told by `Node.attributePaths`, and what it
means by `Node.holds`: its truth value, once it is known which comparisons and value paths are true
(`Valuation`). Both are the same for a tree and for what it contributes to a connective:

* `flatMap_attributePaths_spliced` and `combine_spliced` for one operand;
* `attributePaths_flattened` and `holds_flattened` for all of them;
* `flattened_append_flattened`: a connective among the operands of one of its kind can be replaced
  by its operands.

`connective?_grouping` puts this together. It also says when there is no connective at all, which is
for less than two operands (`connective?_eq_none_iff`).
-/

set_option autoImplicit false

namespace Scim

/-- Which attributes on their own, comparisons and value paths are taken to be true. -/
structure Valuation where
  paths : AttributePath → Bool
  comparisons : Comparison → Bool
  valuePaths : ValuePath → Bool

/-- The truth value of operands of these truth values: all of them, or one of them. -/
def LogicalOperator.combine : LogicalOperator → List Bool → Bool
  | .and, values => values.all id
  | .or, values => values.any id

/-- Truth values can be combined in groups first. -/
theorem LogicalOperator.combine_flatMap {α : Type} (operator : LogicalOperator) (f : α → List Bool)
    (xs : List α) :
    operator.combine (xs.flatMap f)
      = operator.combine (xs.map fun x => operator.combine (f x)) := by
  cases operator with
  | and => simp [combine, List.all_flatMap, List.all_map]
  | or => simp [combine, List.any_flatMap, List.any_map]

/-- A single truth value is combined to itself. -/
theorem LogicalOperator.combine_singleton (operator : LogicalOperator) (value : Bool) :
    operator.combine [value] = value := by
  cases operator <;> simp [combine]

namespace Node

mutual
/-- The truth value of a tree. A value path is true or not as a whole. -/
def holds (v : Valuation) : Node → Bool
  | .attribute path => v.paths path
  | .comparison c => v.comparisons c
  | .negation inner => !holds v inner
  | .connective operator operands => operator.combine (holdsAll v operands)
  | .valuePath path predicate subAttribute? => v.valuePaths ⟨path, predicate, subAttribute?⟩

/-- The truth values of trees, one by one. -/
def holdsAll (v : Valuation) : List Node → List Bool
  | [] => []
  | node :: nodes => holds v node :: holdsAll v nodes
end

/-- The truth values of a list are those of its trees. -/
@[simp]
theorem holdsAll_eq_map (v : Valuation) (nodes : List Node) :
    holdsAll v nodes = nodes.map (holds v) := by
  induction nodes with
  | nil => rfl
  | cons node nodes ih => rw [holdsAll, ih, List.map_cons]

/-- A connective combines the truth values of its operands. -/
theorem holds_connective (v : Valuation) (operator : LogicalOperator) (operands : List Node) :
    (Node.connective operator operands).holds v = operator.combine (operands.map (holds v)) := by
  rw [holds, holdsAll_eq_map]

/-- A connective mentions what its operands mention, in their order. -/
theorem attributePaths_connective (operator : LogicalOperator) (operands : List Node) :
    (Node.connective operator operands).attributePaths = operands.flatMap attributePaths := by
  rw [attributePaths, preorder, preorderAll_eq_flatMap, List.filterMap_cons_none rfl,
    List.filterMap_flatMap]
  rfl

/-! ### One operand -/

/-- What a tree contributes to a connective mentions what the tree does. -/
theorem flatMap_attributePaths_spliced (operator : LogicalOperator) (node : Node) :
    (node.spliced operator).flatMap attributePaths = node.attributePaths := by
  unfold spliced
  split
  · next operator' operands =>
      split
      · rw [attributePaths_connective]
      · exact List.flatMap_singleton _ _
  · exact List.flatMap_singleton _ _

/-- What a tree contributes to a connective has the truth value of the tree, once it is combined. -/
theorem combine_spliced (v : Valuation) (operator : LogicalOperator) (node : Node) :
    operator.combine ((node.spliced operator).map (holds v)) = node.holds v := by
  unfold spliced
  split
  · next operator' operands =>
      split
      · next hsame => rw [holds_connective, hsame]
      · exact operator.combine_singleton _
  · exact operator.combine_singleton _

/-! ### All operands -/

/-- A flattened connective mentions what its operands mention. -/
theorem attributePaths_flattened (operator : LogicalOperator) (operands : List Node) :
    (flattened operator operands).attributePaths = operands.flatMap attributePaths := by
  rw [flattened, attributePaths_connective, List.flatMap_assoc]
  exact List.flatMap_congr fun node _ => flatMap_attributePaths_spliced operator node

/-- A flattened connective combines the truth values of its operands. -/
theorem holds_flattened (v : Valuation) (operator : LogicalOperator) (operands : List Node) :
    (flattened operator operands).holds v = operator.combine (operands.map (holds v)) := by
  rw [flattened, holds_connective, List.map_flatMap, LogicalOperator.combine_flatMap]
  exact congrArg _ (List.map_congr_left fun node _ => combine_spliced v operator node)

/-- A connective among the operands is spliced, operand by operand. -/
theorem flattened_append_flattened (operator : LogicalOperator) (xs ys zs : List Node) :
    flattened operator (xs ++ [flattened operator ys] ++ zs)
      = flattened operator (xs ++ ys ++ zs) := by
  have hinner : (flattened operator ys).spliced operator = ys.flatMap (spliced operator) :=
    spliced_connective operator _
  simp only [flattened, List.flatMap_append, List.flatMap_singleton] at hinner ⊢
  rw [hinner]

/-- There is a connective of two or more operands. -/
theorem connective?_of_two_le {operator : LogicalOperator} {operands : List Node}
    (h : 2 ≤ operands.length) :
    connective? operator operands = some (flattened operator operands) :=
  if_pos h

/-- There is none of fewer. -/
theorem connective?_eq_none_iff {operator : LogicalOperator} {operands : List Node} :
    connective? operator operands = none ↔ operands.length < 2 := by
  unfold connective?
  split
  · next htwo => exact iff_of_false (Option.some_ne_none _) (Nat.not_lt.mpr htwo)
  · next hfew => exact iff_of_true rfl (Nat.not_le.mp hfew)

end Node

open Node

/-- How operands of the same operator are grouped is immaterial.

1. Two operands or more can be joined before the others or together with them.
2. Operands are not joined exactly if there are fewer than two.
3. Joined operands keep everything: their attribute paths, in order, and under every valuation the
   tree is as true as all of them or one of them is. -/
theorem connective?_grouping (operator : LogicalOperator) :
    (∀ xs ys zs : List Node, 2 ≤ ys.length → 1 ≤ xs.length + zs.length →
      ∃ inner whole, connective? operator ys = some inner ∧
        connective? operator (xs ++ [inner] ++ zs) = some whole ∧
        connective? operator (xs ++ ys ++ zs) = some whole) ∧
    (∀ operands : List Node, connective? operator operands = none ↔ operands.length < 2) ∧
    ∀ operands : List Node, 2 ≤ operands.length →
      ∃ whole, connective? operator operands = some whole ∧
        whole.attributePaths = operands.flatMap attributePaths ∧
        ∀ v : Valuation, whole.holds v = operator.combine (operands.map (holds v)) := by
  refine ⟨fun xs ys zs hys hothers => ?_, fun _ => connective?_eq_none_iff, fun operands htwo => ?_⟩
  · refine ⟨_, _, connective?_of_two_le hys, ?_, connective?_of_two_le ?_⟩
    · rw [connective?_of_two_le, flattened_append_flattened]
      simp only [List.length_append, List.length_singleton]
      omega
    · simp only [List.length_append]
      omega
  · exact ⟨_, connective?_of_two_le htwo, attributePaths_flattened operator operands,
      fun v => holds_flattened v operator operands⟩

/-- A conjunction in the middle of a conjunction, with a disjunction in it that stays whole. -/
theorem connective?_grouping_middle :
    ∃ inner whole,
      connective? .and [.connective .or [.comparison (.present (.ofSingle "b")),
        .comparison (.present (.ofSingle "c"))], .comparison (.present (.ofSingle "d"))]
        = some inner ∧
      connective? .and [.comparison (.present (.ofSingle "a")), inner,
        .negation (.comparison (.present (.ofSingle "e")))] = some whole ∧
      connective? .and [.comparison (.present (.ofSingle "a")),
        .connective .or [.comparison (.present (.ofSingle "b")),
          .comparison (.present (.ofSingle "c"))], .comparison (.present (.ofSingle "d")),
        .negation (.comparison (.present (.ofSingle "e")))] = some whole :=
  (connective?_grouping .and).1 [.comparison (.present (.ofSingle "a"))]
    [.connective .or [.comparison (.present (.ofSingle "b")),
      .comparison (.present (.ofSingle "c"))], .comparison (.present (.ofSingle "d"))]
    [.negation (.comparison (.present (.ofSingle "e")))] (by decide) (by decide)

end Scim
