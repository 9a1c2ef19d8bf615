import Scim.Proofs.Parse.PathsAsFilters
import Scim.Proofs.Parse.RoundTrip
import Scim.Proofs.Parse.ValuePaths

/-!
# `Scim.Proofs.Parse.PathRoundTrip`: a path is read back from its text

A value path is written with its collection in front of the brackets, while the node holds the
attribute that is addressed, with the sub-attribute. `ValuePath.WritableFrom` gives the collection
and the predicate that the text is made of, and `PathExpression.Writable` has a case for each form
of a path.

Between the brackets stands the predicate as in a filter, so that the text up to the closing bracket
is read as a filter would be (`exists_derives_valuePath`). A sub-attribute can only come behind it.
Paths are scanned in a mode of their own, in which a dot may start a token, but value paths are the
same in both (`Scim.Proofs.Parse.PathsAsFilters`).

The result is `parsePath_render`, by cases on the form of the path. Unlike the round trip of filters
it needs no induction of its own.
-/

set_option autoImplicit false

namespace Scim

/-! ### Paths that can be written -/

/-- The parts that a value path is written from. -/
structure ValuePath.WritableFrom (collection : AttributePath) (predicate : Node) : Prop where
  lexable : collection.Lexable
  single : collection.length = 1
  isPredicate : predicate.IsPredicate (Comparison.WritableIn collection)

/-- A path expression that is read back from its text: an attribute that is scanned as a single
name, a value path, or a value path with a sub-attribute. -/
inductive PathExpression.Writable : PathExpression → Prop where
  | bare {path : AttributePath}
    (hscan : tokensFrom .path 0 path.render.toList = .ok [⟨.name, path.render, 0⟩])
    (hpath : AttributePath.ofName path.render = path) :
    Writable (.attribute path)
  | value {collection : AttributePath} {predicate : Node}
    (h : ValuePath.WritableFrom collection predicate) :
    Writable (.value (.make collection predicate))
  | subAttribute {collection : AttributePath} {predicate : Node} {name : String}
    (h : ValuePath.WritableFrom collection predicate) (hname : IsSubAttribute name) :
    Writable (.value ((ValuePath.make collection predicate).withSubAttribute name))

/-! ### The text of a value path -/

/-- The text of a value path is scanned to a name and what derives the value path from it. -/
theorem exists_derives_valuePath {collection : AttributePath} {predicate : Node}
    (h : ValuePath.WritableFrom collection predicate) :
    ∃ name ts, name.kind = .name ∧
      Scans .filter 0 (ValuePath.make collection predicate).toNode.render.toList (name :: ts) [] ∧
      Derives .primary false (name :: ts) (.valuePath collection predicate none) := by
  obtain ⟨ts, hscan, hderives⟩ :=
    readAs_valuePath h.lexable h.single h.isPredicate [] delimited_nil 0
  rw [List.append_nil] at hscan
  obtain ⟨first, ts, rfl, -⟩ := hderives.exists_first
  refine ⟨first, ts, ?_, hscan, hderives⟩
  -- The first token is the collection, as a bracket follows it.
  let selected := predicate.renderIn (some collection) ++ "]"
  have htext : (Node.render (.valuePath collection predicate none)).toList
      = collection.render.toList ++ '[' :: selected.toList := by
    simp [Node.render, Node.renderIn, ValuePath.collectionOf, selected]
  have hname := h.lexable.isName.lexeme?_bracketOpen selected.toList
  rw [← htext] at hname
  cases hscan with
  | step hlex hrest =>
      rw [hname] at hlex
      cases hlex
      rfl

/-- A path expression whose parts can be written is read back from its text. -/
theorem parsePath_render {e : PathExpression} (h : e.Writable) : parsePath e.render = .ok e := by
  cases h with
  | @bare path hscan hpath =>
      exact (parsePath_eq_attribute_iff path.render path).mpr ⟨⟨_, hscan, rfl⟩, hpath.symm⟩
  | value h =>
      obtain ⟨name, ts, hname, hscan, hderives⟩ := exists_derives_valuePath h
      exact parsePath_of_derives_valuePath hname hderives hscan
  | @subAttribute collection predicate x h hx =>
      obtain ⟨name, ts, hname, hscan, hderives⟩ := exists_derives_valuePath h
      have hparse := parsePath_of_derives_subAttribute hname hderives hscan hx
      rwa [← render_withSubAttribute] at hparse

/-- An attribute, and a sub-attribute behind a negation and a connective in a connective. -/
theorem parsePath_render_nested :
    (∃ p : AttributePath, PathExpression.Writable (.attribute p) ∧
      (PathExpression.attribute p).render = "urn:x:name.first" ∧
      parsePath (PathExpression.attribute p).render = .ok (.attribute p)) ∧
    ∃ v : ValuePath, v.path = ⟨some "urn:x", "emails", ["v-1"]⟩ ∧
      PathExpression.Writable (.value v) ∧
      (PathExpression.value v).render
        = "urn:x:emails[not (type eq \"w ]\") and (score ge 7 or at.home pr)].v-1" ∧
      parsePath (PathExpression.value v).render = .ok (.value v) := by
  have hpair : ∀ {P : Node → Prop} {a b : Node}, P a → P b → ∀ o ∈ [a, b], P o := by
    simp +contextual
  have hattribute : PathExpression.Writable (.attribute ⟨some "urn:x", "name", ["first"]⟩) :=
    .bare (by decide +kernel) (by decide +kernel)
  let emails : AttributePath := ⟨some "urn:x", "emails", []⟩
  -- The three comparisons of the predicate, each below the collection.
  have htype : Comparison.WritableIn emails
      (.make ⟨some "urn:x", "emails", ["type"]⟩ .eq (some (.string "w ]"))) :=
    ⟨⟨.ofSingle "type", rfl, ⟨⟨by decide +kernel, by decide +kernel⟩, by decide +kernel⟩, rfl⟩, by
      simp [Comparison.make, Comparison.literalFor, Operator.isUnary, Value.Writable]⟩
  have hscore : Comparison.WritableIn emails
      (.make ⟨some "urn:x", "emails", ["score"]⟩ .ge (some (.integer 7))) :=
    ⟨⟨.ofSingle "score", rfl, ⟨⟨by decide +kernel, by decide +kernel⟩, by decide +kernel⟩, rfl⟩, by
      simp only [Comparison.make, Comparison.literalFor, Operator.isUnary, Option.mem_def]
      rintro v ⟨rfl⟩
      show 0 ≤ (7 : Int64).toInt
      decide⟩
  have hhome : Comparison.WritableIn emails
      (.present ⟨some "urn:x", "emails", ["at", "home"]⟩) :=
    ⟨⟨⟨none, "at", ["home"]⟩, rfl, ⟨⟨by decide +kernel, by decide +kernel⟩, by decide +kernel⟩,
      rfl⟩, by
      simp [Comparison.present, Comparison.make, Comparison.literalFor, Operator.isUnary]⟩
  have hemails : ValuePath.WritableFrom emails (.connective .and [
      .negation (.comparison (.make ⟨some "urn:x", "emails", ["type"]⟩ .eq (some (.string "w ]")))),
      .connective .or [
        .comparison (.make ⟨some "urn:x", "emails", ["score"]⟩ .ge (some (.integer 7))),
        .comparison (.present ⟨some "urn:x", "emails", ["at", "home"]⟩)]]) := by
    refine ⟨⟨by decide +kernel, by decide +kernel⟩, rfl, ?_⟩
    refine .connective (by simp) (by simp [Node.logicalOperator?])
      (hpair (.negation (.comparison htype)) ?_)
    exact .connective (by simp) (by simp [Node.logicalOperator?])
      (hpair (.comparison hscore) (.comparison hhome))
  have hvalue := PathExpression.Writable.subAttribute hemails (by decide : IsSubAttribute "v-1")
  exact ⟨⟨_, hattribute, by decide +kernel, parsePath_render hattribute⟩,
    _, rfl, hvalue, by decide +kernel, parsePath_render hvalue⟩

end Scim
