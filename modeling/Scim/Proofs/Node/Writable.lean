import Scim.Node.Render
import Scim.Proofs.Node.Shape
import Scim.Token.Scan

/-!
# `Scim.Proofs.Node.Writable`: trees that their text stands for

Not every tree can be written down so that it is read again. The text of a path must be a single
name of the path (`Lexable`), and a comparison must not start with `not` (`Comparable`); a string
must not hold a quote, and a number must not have a sign (`Value.Writable`). `Node.Writable`
collects these conditions.

They are about the parts of a tree, and `Node.Built` is what is common to all trees: it says what a
tree is built from, given what its comparisons and value paths may be. A predicate is a tree without
value paths of its own (`IsPredicate`).

In a value path the comparisons are written relative to the collection:

* `Node.relativeTo` is the predicate as it is written. `renderIn_eq_render_relativeTo` says so, by
  induction on the predicate, and needs that other paths leave the operators where they are
  (`logicalOperator?_mapPaths`), since these decide where parentheses stand.
* Putting it below the collection again gives it back (`IsPredicate.mapPaths_cancel`), if the
  comparisons are such that their paths do (`Comparison.WritableIn`).
-/

set_option autoImplicit false

namespace Scim

/-! ### Paths and literals -/

namespace AttributePath

/-- A path whose text is scanned as a single name, and this name stands for the path. -/
structure Lexable (p : AttributePath) : Prop where
  scan : tokensFrom .filter 0 p.render.toList = .ok [⟨.name, p.render, 0⟩]
  ofName_render : ofName p.render = p

/-- A path that can stand in front of an operator, where `not` is taken for a negation. -/
structure Comparable (p : AttributePath) : Prop extends Lexable p where
  not_negation : Text.sameIgnoringCase p.render "not" = false

/-- Taking a path out from below another one undoes putting it there, but for the schema. -/
theorem relativeTo_prefixedBy (p collection : AttributePath) :
    (p.prefixedBy collection).relativeTo collection = some ⟨none, p.first, p.inner⟩ := by
  have hnames : (p.prefixedBy collection).names = collection.names ++ p.names := by
    simp [prefixedBy, names]
  unfold relativeTo
  -- Both have the schema of the collection, and its names come first.
  rw [if_pos ⟨rfl, by rw [hnames]; exact List.prefix_append _ _⟩, hnames, length,
    List.drop_left]
  rfl

end AttributePath

/-- A literal that is read back from its text. -/
def Value.Writable : Value → Prop
  | .string text => '"' ∉ text.toList
  | .integer n => 0 ≤ n.toInt
  | .float x => x.isFinite = true ∧ x.isNegative = false
  | .boolean _ | .null => True

/-- A comparison that is read back from its text. -/
structure Comparison.Writable (c : Comparison) : Prop where
  path : c.path.Comparable
  value : ∀ v ∈ c.value?, v.Writable

/-- A comparison in a value path that is read back from its text relative to the collection. -/
structure Comparison.WritableIn (collection : AttributePath) (c : Comparison) : Prop where
  path : ∃ r : AttributePath, r.schema = none ∧ r.Comparable ∧ c.path = r.prefixedBy collection
  value : ∀ v ∈ c.value?, v.Writable

/-! ### Trees -/

namespace Node

/-- A tree built from comparisons of one kind and value paths of another, without a sub-attribute.
Connectives have two operands or more and none of their own kind. -/
inductive Built (C : Comparison → Prop) (V : AttributePath → Node → Prop) : Node → Prop where
  | comparison {c : Comparison} (hc : C c) : Built C V (.comparison c)
  | negation {inner : Node} (hinner : Built C V inner) : Built C V (.negation inner)
  | connective {operator : LogicalOperator} {operands : List Node} (htwo : 2 ≤ operands.length)
    (hkind : ∀ operand ∈ operands, operand.logicalOperator? ≠ some operator)
    (hoperands : ∀ operand ∈ operands, Built C V operand) :
    Built C V (.connective operator operands)
  | valuePath {path : AttributePath} {predicate : Node} (hv : V path predicate) :
    Built C V (.valuePath path predicate none)

/-- A predicate of a value path: a tree without value paths of its own. -/
def IsPredicate (C : Comparison → Prop) (n : Node) : Prop :=
  Built C (fun _ _ => False) n

/-- A tree that is read back from its text. -/
def Writable (n : Node) : Prop :=
  Built Comparison.Writable (fun collection predicate =>
    collection.Lexable ∧ collection.length = 1 ∧
      predicate.IsPredicate (Comparison.WritableIn collection)) n

/-- The tree with every comparison taken out from below a collection, as far as it is below it. -/
def relativeTo (collection : AttributePath) : Node → Node :=
  mapPaths fun path => (path.relativeTo collection).getD path

/-- Other paths leave a connective one of its kind. -/
theorem logicalOperator?_mapPaths (f : AttributePath → AttributePath) (n : Node) :
    (mapPaths f n).logicalOperator? = n.logicalOperator? := by
  cases n <;> rfl

/-- A predicate holds comparisons, negations and connectives only. -/
theorem IsPredicate.simple {C : Comparison → Prop} {n : Node} (h : n.IsPredicate C) :
    n.Simple := by
  induction h with
  | comparison hc => simp [Simple, preorder, kind]
  | negation hinner ih => exact simple_negation_iff.mpr ih
  | connective htwo hkind hoperands ih => exact simple_connective_iff.mpr ih
  | valuePath hv => exact hv.elim

/-- What holds of what a predicate is built from holds of its comparisons. -/
theorem IsPredicate.forall_comparisons {C : Comparison → Prop} {n : Node} (h : n.IsPredicate C) :
    ∀ c ∈ n.comparisons, C c := by
  induction h with
  | comparison hc =>
      intro c hmem
      rwa [List.mem_singleton.mp hmem]
  | negation hinner ih => exact ih
  | connective htwo hkind hoperands ih =>
      intro c hmem
      rw [comparisons_connective, List.mem_flatMap] at hmem
      obtain ⟨operand, hoperand, hmem⟩ := hmem
      exact ih operand hoperand c hmem
  | valuePath hv => exact hv.elim

/-- The comparisons of a tree with other paths are those of the tree with other paths. -/
theorem comparisons_mapPaths {f : AttributePath → AttributePath} {n : Node} (h : n.Simple) :
    (n.mapPaths f).comparisons = n.comparisons.map fun c => { c with path := f c.path } := by
  induction n with
  | attributePath path => simp [Simple, preorder, kind] at h
  | comparison c => rfl
  | negation inner ih => exact ih (simple_negation_iff.mp h)
  | connective operator operands ih =>
      rw [Node.mapPaths, mapPathsAll_eq_map, comparisons_connective, comparisons_connective,
        List.flatMap_map, List.map_flatMap]
      exact List.flatMap_congr fun o ho => ih o ho (simple_connective_iff.mp h o ho)
  | valuePath path predicate subAttribute? ih => simp [Simple, preorder, kind] at h

/-- A tree of other paths is built like the tree. -/
theorem IsPredicate.mapPaths {C D : Comparison → Prop} {f : AttributePath → AttributePath}
    (hCD : ∀ c, C c → D { c with path := f c.path }) {n : Node} (h : n.IsPredicate C) :
    (n.mapPaths f).IsPredicate D := by
  induction h with
  | comparison hc => exact .comparison (hCD _ hc)
  | negation hinner ih => exact .negation ih
  | @connective operator operands htwo hkind hoperands ih =>
      rw [Node.mapPaths, mapPathsAll_eq_map]
      refine .connective (by simpa using htwo) ?_ ?_
      · intro operand hoperand
        obtain ⟨operand', hmem, rfl⟩ := List.mem_map.mp hoperand
        rw [logicalOperator?_mapPaths]
        exact hkind operand' hmem
      · intro operand hoperand
        obtain ⟨operand', hmem, rfl⟩ := List.mem_map.mp hoperand
        exact ih operand' hmem
  | valuePath hv => exact hv.elim

/-- Two changes of paths that cancel out on every comparison of a tree. -/
theorem IsPredicate.mapPaths_cancel {C : Comparison → Prop} {f g : AttributePath → AttributePath}
    (hfg : ∀ c, C c → f (g c.path) = c.path) {n : Node} (h : n.IsPredicate C) :
    (n.mapPaths g).mapPaths f = n := by
  induction h with
  | comparison hc => simp [Node.mapPaths, hfg _ hc]
  | negation hinner ih => simp [Node.mapPaths, ih]
  | connective htwo hkind hoperands ih =>
      simp only [Node.mapPaths, mapPathsAll_eq_map, List.map_map, connective.injEq, true_and]
      exact (List.map_congr_left ih).trans (List.map_id _)
  | valuePath hv => exact hv.elim

/-! ### Text relative to a collection -/

/-- Operands are written alike relative to two collections if each of them is and has the same
operator. -/
theorem renderOperands_congr {collection? collection?' : Option AttributePath}
    {f : Node → Node} (operator : LogicalOperator) {operands : List Node}
    (hkind : ∀ operand ∈ operands, (f operand).logicalOperator? = operand.logicalOperator?)
    (h : ∀ operand ∈ operands, renderIn collection? operand = renderIn collection?' (f operand)) :
    renderOperands collection? operator operands
      = renderOperands collection?' operator (operands.map f) := by
  induction operands with
  | nil => rfl
  | cons operand operands ih =>
      -- Parentheses depend on the operator of the operand alone, which is the same.
      have hfirst : asOperand operand (renderIn collection? operand)
          = asOperand (f operand) (renderIn collection?' (f operand)) := by
        rw [asOperand, asOperand, hkind operand List.mem_cons_self, h operand List.mem_cons_self]
      have hrest := ih (fun o ho => hkind o (List.mem_cons_of_mem operand ho))
        (fun o ho => h o (List.mem_cons_of_mem operand ho))
      cases operands with
      | nil => simpa only [renderOperands, List.map_cons, List.map_nil] using hfirst
      | cons second others =>
          simp only [renderOperands, List.map_cons] at hrest ⊢
          rw [hfirst, hrest]

/-- In a value path, a predicate is written as the tree relative to the collection is. -/
theorem renderIn_eq_render_relativeTo {C : Comparison → Prop} (collection : AttributePath)
    {n : Node} (h : n.IsPredicate C) :
    n.renderIn (some collection) = (n.relativeTo collection).render := by
  unfold render relativeTo
  induction h with
  | comparison hc => rfl
  | negation hinner ih => simp only [renderIn, Node.mapPaths, ih]
  | connective htwo hkind hoperands ih =>
      simp only [renderIn, Node.mapPaths, mapPathsAll_eq_map]
      exact renderOperands_congr _ (fun o _ => logicalOperator?_mapPaths _ o) ih
  | valuePath hv => exact hv.elim

end Node

namespace Comparison.WritableIn

variable {collection : AttributePath} {c : Comparison}

/-- Relative to the collection, the comparison is one that can be written on its own. -/
theorem relative (h : c.WritableIn collection) :
    Comparison.Writable
      { c with path := (c.path.relativeTo collection).getD c.path } := by
  obtain ⟨⟨schema, first, inner⟩, hschema, hr, hpath⟩ := h.path
  obtain rfl : schema = none := hschema
  refine ⟨?_, h.value⟩
  rw [hpath, AttributePath.relativeTo_prefixedBy]
  exact hr

/-- Below the collection again, its path is what it was. -/
theorem prefixedBy_relative (h : c.WritableIn collection) :
    ((c.path.relativeTo collection).getD c.path).prefixedBy collection = c.path := by
  obtain ⟨r, -, -, hpath⟩ := h.path
  rw [hpath, AttributePath.relativeTo_prefixedBy]
  rfl

end Comparison.WritableIn

end Scim
