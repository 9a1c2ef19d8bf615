import Mathlib.Data.List.Forall2
import Scim.Proofs.Node.WellFormed

/-!
# `Scim.Proofs.Node.Rerooting`: predicates below a collection and out again

The comparisons of a value path are kept below its collection and written relative to it. Going
there and back must lose nothing but the schemas, which the collection has for all of them.

For paths, `prefixedBy` and `relativeTo` undo each other (`AttributePath.relativeTo_eq_some_iff`).
`MovedBelow` says what a path has become below a collection: its names come behind those of the
collection, the schema is that of the collection, and taking the collection away gives back the path
without its schema.

For trees, `Node.SameUpToPaths` compares two trees node by node and leaves to a relation what may
become of a path:

* `sameUpToPaths_mapPaths`: a tree that is put below a collection is the same up to paths.
* `wellFormed_mapPaths_iff`: so it is as well formed as before.
* `relativeTo_under`: `Node.relativeTo` takes it out again.
* `rootedAt?_eq_none_iff`: a tree cannot be put below a collection if it has a value path or an
  attribute on its own in it, and otherwise it can.

`rootedAt?_reversible` states all this of `Node.rootedAt?`, and the converse for paths.
-/

set_option autoImplicit false

namespace Scim

namespace AttributePath

/-- The path without its schema. -/
def unqualified (p : AttributePath) : AttributePath :=
  { p with schema := none }

/-- What a path becomes below a collection, and how it is had back. -/
structure MovedBelow (collection p q : AttributePath) : Prop where
  schema_eq : q.schema = collection.schema
  names_eq : q.names = collection.names ++ p.names
  relativeTo_eq : q.relativeTo collection = some p.unqualified

/-- A path below a collection has the names of both, the collection's first. -/
theorem names_prefixedBy (p collection : AttributePath) :
    (p.prefixedBy collection).names = collection.names ++ p.names := by
  simp [prefixedBy, names]

/-- A path that is put below a collection is moved there. -/
theorem movedBelow_prefixedBy (collection p : AttributePath) :
    MovedBelow collection p (p.prefixedBy collection) where
  schema_eq := rfl
  names_eq := names_prefixedBy p collection
  relativeTo_eq := relativeTo_prefixedBy p collection

/-- A path is told by its schema and its names. -/
theorem eq_of_names_eq {p q : AttributePath} (hschema : p.schema = q.schema)
    (hnames : p.names = q.names) : p = q := by
  obtain ⟨schema, first, inner⟩ := p
  obtain ⟨hfirst, hinner⟩ := List.cons.inj hnames
  dsimp only at hschema hfirst hinner
  rw [hschema, hfirst, hinner]

/-- Names are those of a path if the path has them, in their order and with the schema. -/
theorem ofNames?_eq_some_iff {schema : Option String} {texts : List String} {p : AttributePath} :
    ofNames? schema texts = some p ↔ p.schema = schema ∧ p.names = texts := by
  cases texts with
  | nil => simp [ofNames?, names]
  | cons first inner =>
      show some (⟨schema, first, inner⟩ : AttributePath) = some p ↔ _
      rw [Option.some.injEq]
      constructor
      · intro h
        rw [← h]
        exact ⟨rfl, rfl⟩
      · intro h
        exact eq_of_names_eq h.1.symm h.2.symm

/-- The paths relative to another one are those without a schema that give the path below it. -/
theorem relativeTo_eq_some_iff {p collection r : AttributePath} :
    p.relativeTo collection = some r ↔ r.schema = none ∧ r.prefixedBy collection = p := by
  constructor
  · intro h
    unfold relativeTo at h
    split at h
    · next hbelow =>
        obtain ⟨hschema, hnames⟩ := ofNames?_eq_some_iff.mp h
        refine ⟨hschema, eq_of_names_eq hbelow.1.symm ?_⟩
        calc (r.prefixedBy collection).names
          _ = collection.names ++ p.names.drop collection.length := by
              rw [names_prefixedBy, hnames]
          _ = p.names := List.prefix_iff_eq_append.mp hbelow.2
    · contradiction
  · intro h
    rw [← h.2, relativeTo_prefixedBy, ← h.1]

end AttributePath

namespace Node

/-- The tree without the schemas of its comparisons. -/
def unqualified : Node → Node :=
  mapPaths AttributePath.unqualified

/-- Two trees of the same shape, with the same operators and the same literals, and with a relation
between the paths of their comparisons. There are no other paths in them. -/
inductive SameUpToPaths (R : AttributePath → AttributePath → Prop) : Node → Node → Prop where
  | comparison {c d : Comparison} (hpath : R c.path d.path) (hoperator : d.operator = c.operator)
    (hvalue : d.value? = c.value?) : SameUpToPaths R (.comparison c) (.comparison d)
  | negation {inner inner' : Node} (hinner : SameUpToPaths R inner inner') :
    SameUpToPaths R (.negation inner) (.negation inner')
  | connective {operator : LogicalOperator} {operands operands' : List Node}
    (hoperands : List.Forall₂ (SameUpToPaths R) operands operands') :
    SameUpToPaths R (.connective operator operands) (.connective operator operands')

/-- Rooting fails for a tree that is not simple. -/
theorem rootedAt?_eq_none_iff {collection : AttributePath} {n : Node} :
    rootedAt? collection n = none ↔ ¬ n.Simple := by
  rw [← Option.not_isSome_iff_eq_none, not_iff_not, Option.isSome_iff_exists]
  constructor
  · intro h
    obtain ⟨r, hr⟩ := h
    exact (rootedAt?_eq_some_iff.mp hr).1
  · intro h
    exact ⟨under collection n, rootedAt?_eq_some_iff.mpr ⟨h, rfl⟩⟩

/-- A tree that is not simple has a value path or an attribute on its own in it. -/
theorem not_simple_iff {n : Node} :
    ¬ n.Simple ↔ ∃ m ∈ n.preorder, m.kind = .valuePath ∨ m.kind = .attributePath := by
  simp only [Simple, not_forall, exists_prop, not_and_or, not_not, or_comm]

/-- Only paths change where paths are changed, and as the relation says. -/
theorem sameUpToPaths_mapPaths {R : AttributePath → AttributePath → Prop}
    {f : AttributePath → AttributePath} (hR : ∀ p, R p (f p)) {n : Node} (h : n.Simple) :
    SameUpToPaths R n (mapPaths f n) := by
  induction n with
  | attributePath path => simp [Simple, preorder, kind] at h
  | comparison c => exact .comparison (hR c.path) rfl rfl
  | negation inner ih => exact .negation (ih (simple_negation_iff.mp h))
  | connective operator operands ih =>
      rw [mapPaths, mapPathsAll_eq_map]
      refine .connective (List.forall₂_map_right_iff.mpr (List.forall₂_same.mpr ?_))
      intro operand hoperand
      exact ih operand hoperand (simple_connective_iff.mp h operand hoperand)
  | valuePath path predicate subAttribute? ih => simp [Simple, preorder, kind] at h

/-- Paths can be changed twice at once. -/
theorem mapPaths_mapPaths (f g : AttributePath → AttributePath) (n : Node) :
    mapPaths f (mapPaths g n) = mapPaths (fun p => f (g p)) n := by
  induction n with
  | attributePath path => rfl
  | comparison c => rfl
  | negation inner ih => simp only [mapPaths, ih]
  | connective operator operands ih =>
      simp only [mapPaths, mapPathsAll_eq_map, List.map_map]
      exact congrArg _ (List.map_congr_left ih)
  | valuePath path predicate subAttribute? ih => rfl

/-- Whether a tree is well formed does not depend on its paths. -/
theorem wellFormed_mapPaths_iff {f : AttributePath → AttributePath} {n : Node} :
    (mapPaths f n).WellFormed ↔ n.WellFormed := by
  induction n with
  | attributePath path => rfl
  | comparison c => exact iff_of_true (wellFormed_comparison _) (wellFormed_comparison _)
  | negation inner ih => rw [mapPaths, wellFormed_negation_iff, wellFormed_negation_iff, ih]
  | connective operator operands ih =>
      rw [mapPaths, mapPathsAll_eq_map, wellFormed_connective_iff, wellFormed_connective_iff,
        List.length_map, List.forall_mem_map]
      refine and_congr_right fun _ => forall₂_congr fun operand hoperand => ?_
      rw [logicalOperator?_mapPaths, ih operand hoperand]
  | valuePath path predicate subAttribute? ih => rfl

/-- Taking a tree out from below a collection undoes putting it there, but for the schemas. -/
theorem relativeTo_under (collection : AttributePath) (n : Node) :
    (under collection n).relativeTo collection = n.unqualified := by
  unfold relativeTo under unqualified
  rw [mapPaths_mapPaths]
  congr 1
  funext p
  rw [AttributePath.relativeTo_prefixedBy]
  rfl

/-- Putting a tree below a collection fails exactly for a tree with a value path or an attribute on
its own in it. Else nothing but paths changes, and taking the tree out again gives it back without
its schemas. The other way round, a path that is taken out from below a collection is had back by
putting it there. -/
theorem rootedAt?_reversible (collection : AttributePath) (n : Node) :
    (rootedAt? collection n = none ↔
      ∃ m ∈ n.preorder, m.kind = .valuePath ∨ m.kind = .attributePath) ∧
    (∀ r, rootedAt? collection n = some r →
      SameUpToPaths (AttributePath.MovedBelow collection) n r ∧
      (r.WellFormed ↔ n.WellFormed) ∧
      r.relativeTo collection = n.unqualified) ∧
    ∀ p r : AttributePath, p.relativeTo collection = some r → r.prefixedBy collection = p := by
  refine ⟨rootedAt?_eq_none_iff.trans not_simple_iff, ?_, ?_⟩
  · intro r hr
    obtain ⟨hsimple, rfl⟩ := rootedAt?_eq_some_iff.mp hr
    have hmoved := AttributePath.movedBelow_prefixedBy collection
    exact ⟨sameUpToPaths_mapPaths hmoved hsimple, wellFormed_mapPaths_iff,
      relativeTo_under collection n⟩
  · intro p r hr
    exact (AttributePath.relativeTo_eq_some_iff.mp hr).2

/-- `User:emails` has `urn:x:type eq "work" and not (value pr)` put below it, and the path
`User:emails.value.display` is below it already. -/
theorem rootedAt?_reversible_emails :
    let emails : AttributePath := ⟨some "User", "emails", []⟩
    let work : Comparison := .make ⟨some "urn:x", "type", []⟩ .eq (some (.string "work"))
    let value : Comparison := .present ⟨none, "value", []⟩
    let n := Node.connective .and [.comparison work, .negation (.comparison value)]
    let r := Node.connective .and [.comparison (work.rootedAt emails),
      .negation (.comparison (value.rootedAt emails))]
    let p : AttributePath := ⟨some "User", "emails", ["value", "display"]⟩
    (rootedAt? emails n = some r ∧ SameUpToPaths (AttributePath.MovedBelow emails) n r ∧
      (r.WellFormed ↔ n.WellFormed) ∧ r.relativeTo emails = n.unqualified) ∧
    p.relativeTo emails = some ⟨none, "value", ["display"]⟩ ∧
      (⟨none, "value", ["display"]⟩ : AttributePath).prefixedBy emails = p := by
  intro emails work value n r p
  have hrooted : rootedAt? emails n = some r := rfl
  have hrelative : p.relativeTo emails = some ⟨none, "value", ["display"]⟩ := by decide
  have h := rootedAt?_reversible emails n
  exact ⟨⟨hrooted, h.2.1 r hrooted⟩, hrelative, h.2.2 p _ hrelative⟩

end Node

end Scim
