import Mathlib.Algebra.Order.BigOperators.Group.List
import Scim.Proofs.Parse.Accepted
import Scim.Proofs.Parse.RoundTrip

/-!
# `Scim.Proofs.Parse.Canonical`: when the text of an accepted filter is read back

A filter that is accepted and written again is in its usual form. `parseFilter_render_iff` says when
this form stands for the same tree: the comparisons of every value path must be comparable when they
are written relative to the collection. A name may have a schema in front of it when it is read, and
in a value path the schema is dropped. What is left can be something else than a name: `not` before
an operator is a negation, and `true` or `1st` start with a literal.

That the condition is sufficient is the round trip of `Node.Writable` (`Node.Accepted.writable`).
That it is necessary is shown by counting colons. Every colon of a tree's text was in the text that
the tree was read from, and that text had one more for each schema that was dropped. So a tree that
is read back from its own text has lost no schema on the way.

* `colons_…`: the colons of the text of a tree, by the way it is put together.
* `colons_under_le`, and `colons_under_lt` where a schema is dropped.
* `colons_le_of_derives`: no colon is gained by reading, by induction on the derivation.
* `relativelyComparable_of_derives`: if none is lost either, there was no schema to drop.
-/

set_option autoImplicit false

namespace Scim

/-! ### Colons -/

/-- The number of colons in a text. -/
def colons (text : String) : Nat :=
  text.toList.count ':'

/-- The colons of two texts in a row. -/
@[simp]
theorem colons_append (a b : String) : colons (a ++ b) = colons a + colons b := by
  simp [colons]

/-- A text without a colon. -/
theorem colons_eq_zero {text : String} (h : ':' ∉ text.toList) : colons text = 0 :=
  List.count_eq_zero.mpr h

/-- No colon is a digit. -/
theorem colon_not_mem_digits {ds : List Char} (h : ∀ c ∈ ds, c.isDigit = true) : ':' ∉ ds :=
  fun hmem => absurd (h ':' hmem) (by decide)

/-- A float is written without a colon, also one that is not finite. -/
theorem colon_not_mem_write (x : Number.Binary64) : ':' ∉ (Value.floatLayout.write x).toList := by
  unfold Number.Layout.write
  split
  · decide
  · rw [String.toList_ofList, List.mem_append, not_or]
    refine ⟨by split <;> decide, ?_⟩
    split
    · next hfinite =>
        obtain ⟨whole, fraction, htext, hwhole, hfraction, -⟩ := Number.writeFinite_writes hfinite
        rw [htext, List.mem_append, List.mem_cons, not_or, not_or]
        exact ⟨colon_not_mem_digits hwhole.all, by decide, colon_not_mem_digits hfraction.all⟩
    · decide

/-- The colons of a literal are in the text of its token. -/
theorem colons_literal {t : Token} {v : Value} (h : t.literal? = some v) :
    colons v.render ≤ colons t.text := by
  have hnone : ∀ {text : String}, ':' ∉ text.toList → colons text ≤ colons t.text := by
    intro text htext
    rw [colons_eq_zero htext]
    exact Nat.zero_le _
  cases v with
  | string text =>
      have htext : text = Token.unquoted t.text := by
        unfold Token.literal? at h
        split at h
        · simpa using h.symm
        · -- A number is none.
          unfold Value.ofNumber? at h
          split at h
          · simp at h
          · split at h <;> simp at h
        all_goals simp at h
      have hsublist : text.toList.Sublist t.text.toList := by
        rw [htext, Token.unquoted, String.toList_ofList]
        exact (List.dropLast_sublist _).trans (List.tail_sublist _)
      have hrender : colons (Value.string text).render = text.toList.count ':' := by
        simp [Value.render, colons]
      rw [hrender]
      exact hsublist.count_le ':'
  | integer n =>
      refine hnone ?_
      have hdigits := colon_not_mem_digits (Number.all_isDigit_digits n.toInt.natAbs)
      rw [Value.render, Number.integerText, String.toList_ofList]
      split
      · simpa using hdigits
      · exact hdigits
  | float x => exact hnone (colon_not_mem_write x)
  | boolean b => exact hnone (by cases b <;> decide)
  | null => exact hnone (by decide)

namespace Node

/-- Parentheses have no colons. -/
theorem colons_asOperand (operand : Node) (text : String) :
    colons (operand.asOperand text) = colons text := by
  have hparens : colons "(" = 0 ∧ colons ")" = 0 := by decide
  unfold asOperand
  split
  · simp [hparens]
  · rfl

/-- Logical operators have no colons, so only those of the operands count. -/
theorem colons_renderOperands (collection? : Option AttributePath) (operator : LogicalOperator)
    (operands : List Node) :
    colons (renderOperands collection? operator operands)
      = (operands.map fun o => colons (o.renderIn collection?)).sum := by
  have hword : colons " " = 0 ∧ colons operator.keyword = 0 := by cases operator <;> decide
  induction operands with
  | nil => rfl
  | cons operand operands ih =>
      cases operands with
      | nil => simp [renderOperands, colons_asOperand]
      | cons second others =>
          rw [renderOperands]
          · simp only [colons_append, colons_asOperand, hword, ih, List.map_cons, List.sum_cons]
            omega
          · simp

/-- The keyword of a negation has no colon. -/
theorem colons_negation (collection? : Option AttributePath) (inner : Node) :
    colons ((Node.negation inner).renderIn collection?) = colons (inner.renderIn collection?) := by
  have hparens : colons "not (" = 0 ∧ colons ")" = 0 := by decide
  simp [renderIn, hparens]

/-- The colons of a value path are those of its collection and of its predicate. -/
theorem colons_valuePath (collection : AttributePath) (predicate : Node) :
    colons (Node.valuePath collection predicate none).render
      = colons collection.render + colons (predicate.renderIn (some collection)) := by
  have hbrackets : colons "[" = 0 ∧ colons "]" = 0 := by decide
  simp [render, renderIn, ValuePath.collectionOf, hbrackets]

/-- Joined trees are written with the colons of both, spliced or not. -/
theorem colons_joined (operator : LogicalOperator) (left right : Node) :
    colons (Node.joined operator left right).render = colons left.render + colons right.render := by
  -- Splicing takes the parentheses away and nothing else.
  have hspliced : ∀ n : Node, ((n.spliced operator).map fun o => colons o.render).sum
      = colons n.render := by
    intro n
    by_cases hsame : n.logicalOperator? = some operator
    · cases n with
      | connective operator' operands =>
          cases hsame
          rw [spliced_connective]
          exact (colons_renderOperands none operator operands).symm
      | _ => cases hsame
    · rw [spliced_of_ne hsame]
      simp
  rw [joined_eq, ← hspliced left, ← hspliced right, ← List.sum_append, ← List.map_append]
  exact colons_renderOperands none operator _

/-! ### Schemas that are dropped -/

end Node

/-- A path has the colons of its schema, one behind the schema, and those of its names. -/
theorem AttributePath.colons_render (p : AttributePath) :
    colons p.render = (p.schema.elim 0 fun schema => colons schema + 1) + colons p.dotted := by
  have hcolon : colons ":" = 1 := by decide
  unfold render
  cases p.schema with
  | none => simp
  | some schema => simp [hcolon]

/-- The colons of a comparison are those of its path, as it is written, and those of its literal. -/
theorem Comparison.colons_render (collection? : Option AttributePath) (c : Comparison) :
    colons (c.render collection?)
      = colons ((collection?.bind c.path.relativeTo).getD c.path).render
        + c.value?.elim 0 fun v => colons v.render := by
  have hword : colons " " = 0 ∧ colons c.operator.keyword = 0 := by
    refine ⟨by decide, ?_⟩
    cases c.operator <;> decide
  unfold render
  cases c.value? with
  | none => simp [hword]
  | some v => simp [hword]

/-- Below a collection, a comparison is written with its own path again, but without the schema. -/
theorem Comparison.colons_under (c : Comparison) (collection : AttributePath) :
    colons (Comparison.render (some collection) { c with path := c.path.prefixedBy collection })
      + (c.path.schema.elim 0 fun schema => colons schema + 1) = colons (c.render none) := by
  rw [colons_render, colons_render, Option.bind_some, AttributePath.relativeTo_prefixedBy,
    Option.bind_none, Option.getD_some, Option.getD_none, AttributePath.colons_render,
    AttributePath.colons_render]
  have hdotted : (⟨none, c.path.first, c.path.inner⟩ : AttributePath).dotted = c.path.dotted := rfl
  rw [hdotted]
  simp only [Option.elim_none]
  omega

namespace Node

/-- Below a collection, a tree is not written with more colons than on its own. -/
theorem colons_under_le {n : Node} (h : n.Simple) (collection : AttributePath) :
    colons ((n.under collection).renderIn (some collection)) ≤ colons n.render := by
  induction n with
  | attributePath path => simp [Simple, preorder, kind] at h
  | comparison c =>
      have hc := c.colons_under collection
      exact Nat.le.intro hc
  | negation inner ih =>
      rw [under, mapPaths, render, colons_negation, colons_negation]
      exact ih (simple_negation_iff.mp h)
  | connective operator operands ih =>
      rw [under, mapPaths, mapPathsAll_eq_map, render, renderIn, renderIn, colons_renderOperands,
        colons_renderOperands, List.map_map]
      exact List.sum_le_sum fun o ho => ih o ho (simple_connective_iff.mp h o ho)
  | valuePath path predicate subAttribute? ih => simp [Simple, preorder, kind] at h

/-- The colon behind a schema is missing below a collection. -/
theorem colons_under_lt {n : Node} (h : n.Simple) (collection : AttributePath) {c : Comparison}
    (hc : c ∈ n.comparisons) (hschema : c.path.schema ≠ none) :
    colons ((n.under collection).renderIn (some collection)) < colons n.render := by
  induction n with
  | attributePath path => simp [Simple, preorder, kind] at h
  | comparison c' =>
      obtain rfl := List.mem_singleton.mp hc
      have hcount := c.colons_under collection
      obtain ⟨schema, hsome⟩ := Option.ne_none_iff_exists'.mp hschema
      rw [hsome, Option.elim_some] at hcount
      show colons (Comparison.render _ { c with path := c.path.prefixedBy collection }) < _
      rw [render, renderIn]
      omega
  | negation inner ih =>
      rw [under, mapPaths, render, colons_negation, colons_negation]
      exact ih (simple_negation_iff.mp h) hc
  | connective operator operands ih =>
      rw [comparisons_connective, List.mem_flatMap] at hc
      obtain ⟨operand, hoperand, hc⟩ := hc
      have hsimple := simple_connective_iff.mp h
      rw [under, mapPaths, mapPathsAll_eq_map, render, renderIn, renderIn, colons_renderOperands,
        colons_renderOperands, List.map_map]
      -- No operand gains a colon, and the one with the schema loses one.
      refine List.sum_lt_sum _ _ (fun o ho => colons_under_le (hsimple o ho) collection) ?_
      exact ⟨operand, hoperand, ih operand hoperand (hsimple operand hoperand) hc⟩
  | valuePath path predicate subAttribute? ih => simp [Simple, preorder, kind] at h

end Node

/-! ### Derivations -/

/-- The number of colons in the texts of some tokens. -/
def colonsOf (ts : List Token) : Nat :=
  (ts.map fun t => colons t.text).sum

/-- The first token, and the others. -/
@[simp]
theorem colonsOf_cons (t : Token) (ts : List Token) :
    colonsOf (t :: ts) = colons t.text + colonsOf ts :=
  List.sum_cons

/-- The colons of two lists of tokens. -/
@[simp]
theorem colonsOf_append (ts us : List Token) : colonsOf (ts ++ us) = colonsOf ts + colonsOf us := by
  simp [colonsOf]

/-- These are the colons of the text that the tokens divide. -/
theorem colonsOf_eq_count (ts : List Token) : colonsOf ts = (Token.charsOf ts).count ':' := by
  induction ts with
  | nil => rfl
  | cons t ts ih => rw [colonsOf_cons, Token.charsOf_cons, List.count_append, ih, colons]

/-- The text of a tree has no colon that the tokens it was read from do not have. -/
theorem colons_le_of_derives {nt : Nonterminal} {v : Bool} {ts : List Token} {n : Node}
    (h : Derives nt v ts n) : colons n.render ≤ colonsOf ts := by
  induction h with
  | single h ih => exact ih
  | joined hleft hword hread hright ihleft ihright =>
      rw [Node.colons_joined, colonsOf_append, colonsOf_cons]
      omega
  | enclosed hopen hbody hignored hmatch hclose ih =>
      rw [colonsOf_cons, colonsOf_append, colonsOf_append]
      omega
  | group h ih => exact ih
  | negation hword h ih =>
      rw [Node.render, Node.colons_negation, colonsOf_cons]
      exact Nat.le_add_left_of_le ih
  | @present v name word hname hword hread =>
      rw [Node.render, Node.renderIn, Comparison.colons_render, colonsOf_cons]
      show colons (AttributePath.ofName name.text).render + 0 ≤ _
      rw [AttributePath.render_ofName]
      omega
  | @comparison v name word literal operator value hname hword hread hoperator hliteral hvalue =>
      -- Outside of a value path the path is written as it was read.
      have hle := colons_literal hvalue
      rw [Node.render, Node.renderIn, Comparison.colons_render, value?_make hoperator,
        colonsOf_cons, colonsOf_cons, colonsOf_cons]
      show colons (AttributePath.ofName name.text).render + _ ≤ _
      rw [AttributePath.render_ofName, Option.elim_some]
      omega
  | @valuePath name opening closing body n hname hsingle hopen hbody hplain hclose ih =>
      have hsimple : n.Simple := fun m hm => ⟨hbody.kind_ne_attributePath m hm, hplain m hm⟩
      have hunder := Node.colons_under_le hsimple (.ofName name.text)
      rw [Node.colons_valuePath, AttributePath.render_ofName, colonsOf_cons, colonsOf_cons,
        colonsOf_append]
      omega

/-- Every comparison of a value path is comparable as it is written, relative to the collection. -/
def Node.RelativelyComparable (n : Node) : Prop :=
  ∀ collection predicate, .valuePath collection predicate none ∈ n.preorder →
    ∀ c ∈ predicate.comparisons, ∀ r, c.path.relativeTo collection = some r → r.Comparable

/-- If the text of a tree has all the colons of the tokens it was read from, no comparison of a
value path had a schema. -/
theorem relativelyComparable_of_derives {nt : Nonterminal} {v : Bool} {ts : List Token} {n : Node}
    (h : Derives nt v ts n) (hscan : Scanned .filter ts) (hcount : colonsOf ts ≤ colons n.render) :
    n.RelativelyComparable := by
  induction h with
  | single h ih => exact ih hscan hcount
  | joined hleft hword hread hright ihleft ihright =>
      have hcolonsLeft := colons_le_of_derives hleft
      have hcolonsRight := colons_le_of_derives hright
      -- Neither side has fewer colons than its tokens, so both have as many.
      rw [Node.colons_joined, colonsOf_append, colonsOf_cons] at hcount
      intro collection predicate hmem
      rcases Node.mem_preorder_joined hmem with heq | hmem | hmem
      · rw [Node.joined_eq] at heq
        cases heq
      · exact ihleft hscan.left (by omega) collection predicate hmem
      · exact ihright hscan.right.tail (by omega) collection predicate hmem
  | enclosed hopen hbody hignored hmatch hclose ih =>
      rw [colonsOf_cons, colonsOf_append, colonsOf_append] at hcount
      exact ih hscan.tail.left.left (by omega)
  | group h ih => exact ih hscan hcount
  | @negation v word ts n hword h ih =>
      rw [Node.render, Node.colons_negation, colonsOf_cons] at hcount
      intro collection predicate hmem
      have hmem : .valuePath collection predicate none ∈ n.preorder := by
        simpa [Node.preorder] using hmem
      exact ih hscan.tail (Nat.le_of_add_left_le hcount) collection predicate hmem
  | present hname hword hread =>
      intro collection predicate hmem
      simp [Node.preorder] at hmem
  | comparison hname hword hread hoperator hliteral hvalue =>
      intro collection predicate hmem
      simp [Node.preorder] at hmem
  | @valuePath name opening closing body n hname hsingle hopen hbody hplain hclose ih =>
      have haccepted := (accepted_of_derives hbody hscan.tail.tail.left).isPredicate hplain
      have hcolons := colons_le_of_derives hbody
      rw [Node.colons_valuePath, AttributePath.render_ofName, colonsOf_cons, colonsOf_cons,
        colonsOf_append] at hcount
      -- A schema in the body would have cost a colon.
      have hschema : ∀ c ∈ n.comparisons, c.path.schema = none := by
        intro c hc
        by_contra hne
        have hlt := Node.colons_under_lt haccepted.simple (.ofName name.text) hc hne
        omega
      intro collection predicate hmem c hc r hr
      obtain ⟨rfl, rfl⟩ : .ofName name.text = collection ∧
          n.under (.ofName name.text) = predicate := by
        rcases List.mem_cons.mp hmem with heq | hmem
        · cases heq
          exact ⟨rfl, rfl⟩
        · -- A predicate holds no value path.
          obtain ⟨m, hm, hkind⟩ := Node.exists_kind_eq_of_mem_mapPaths hmem
          exact absurd hkind (hplain m hm)
      rw [Node.under, Node.comparisons_mapPaths haccepted.simple] at hc
      obtain ⟨read, hread, rfl⟩ := List.mem_map.mp hc
      rw [AttributePath.relativeTo_prefixedBy, Option.some.injEq] at hr
      -- Without a schema to lose, the relative path is the one that was read.
      have hpath : r = read.path := by
        rw [← hr, ← hschema read hread]
      rw [hpath]
      exact (haccepted.forall_comparisons read hread).path

/-! ### The result -/

/-- A tree as it can be read can be written, if its floats are finite and its value paths can do
without schemas. -/
theorem Node.Accepted.writable {n : Node} (h : n.Accepted)
    (hfinite : ∀ c ∈ n.comparisons, ∀ x, c.value? = some (.float x) → x.isFinite = true)
    (hrelative : n.RelativelyComparable) : n.Writable := by
  have hvalue : ∀ c ∈ n.comparisons, (∀ v ∈ c.value?, v.Unsigned) → ∀ v ∈ c.value?, v.Writable := by
    intro c hc hunsigned v hv
    refine (hunsigned v hv).writable fun x hx => hfinite c hc x ?_
    rw [← hx]
    exact hv
  refine Built.imp h ?_ ?_
  · intro c hmem hc
    exact ⟨hc.path, hvalue c (mem_comparisons_iff.mpr hmem) hc.value⟩
  · rintro collection _ hmem ⟨hlexable, hsingle, body, hbody, rfl⟩
    refine ⟨hlexable, hsingle, ?_⟩
    have hcomparisons := comparisons_mapPaths (f := (·.prefixedBy collection)) hbody.simple
    -- Of each comparison it is known that it can be written once it is below the collection.
    have hwritable : body.IsPredicate fun c =>
        Comparison.WritableIn collection { c with path := c.path.prefixedBy collection } := by
      refine Built.imp hbody ?_ fun _ _ _ hfalse => hfalse
      intro c hc haccepted
      have hunder : { c with path := c.path.prefixedBy collection }
          ∈ (body.under collection).comparisons := by
        rw [under, hcomparisons]
        exact List.mem_map_of_mem (mem_comparisons_iff.mpr hc)
      have hr := hrelative collection _ hmem _ hunder _ (c.path.relativeTo_prefixedBy collection)
      refine ⟨⟨_, rfl, hr, rfl⟩, ?_⟩
      refine hvalue { c with path := c.path.prefixedBy collection } ?_ haccepted.value
      exact mem_comparisons_iff.mpr (mem_preorder_trans hmem
        (List.mem_cons_of_mem _ (mem_comparisons_iff.mp hunder)))
    exact hwritable.mapPaths fun c hc => hc

/-- A tree that is read from its own text has lost no schema. -/
theorem relativelyComparable_of_parseFilter_render {n : Node}
    (h : parseFilter n.render = .ok (some n)) : n.RelativelyComparable := by
  obtain ⟨ts, us, hscan, -, hderives⟩ := derives_of_parseFilter h
  -- The tokens were scanned from the text of the tree, so they have no colons besides.
  refine relativelyComparable_of_derives hderives (scanned_of_tokensFrom hscan).left ?_
  have hchars := (tokensFrom_eq_ok_iff.mp hscan).charsOf_append
  rw [List.append_nil] at hchars
  rw [colons, ← hchars, ← colonsOf_eq_count, colonsOf_append]
  exact Nat.le_add_right _ _

/-- An accepted filter with finite floats is read back from its usual form exactly if every
comparison in a value path is comparable without its schema. -/
theorem parseFilter_render_iff {input : String} {n : Node} (h : parseFilter input = .ok (some n))
    (hfinite : ∀ c ∈ n.comparisons, ∀ x, c.value? = some (.float x) → x.isFinite = true) :
    parseFilter n.render = .ok (some n) ↔ n.RelativelyComparable := by
  obtain ⟨ts, us, hscan, -, hderives⟩ := derives_of_parseFilter h
  have haccepted := accepted_of_derives hderives (scanned_of_tokensFrom hscan).left
  constructor
  · exact relativelyComparable_of_parseFilter_render
  · intro hrelative
    exact parseFilter_of_readAs (readAs_of_writable (haccepted.writable hfinite hrelative))

/-- A schema that can be dropped, and one that cannot: the name behind it is `not`. -/
theorem parseFilter_render_iff_schemas :
    (∃ n : Node, parseFilter "emails[x:type eq 1.5]" = .ok (some n) ∧
      n.render = "emails[type eq 1.5]" ∧ n.RelativelyComparable) ∧
    ∃ n : Node, parseFilter "emails[x:not pr]" = .ok (some n) ∧
      n.render = "emails[not pr]" ∧ ¬ n.RelativelyComparable := by
  refine ⟨⟨.valuePath (.ofSingle "emails") (.comparison (.make ⟨none, "emails", ["type"]⟩ .eq
    (some (.float ⟨0x3FF8000000000000⟩)))) none, by decide +kernel, by decide +kernel, ?_⟩,
    .valuePath (.ofSingle "emails") (.comparison (.present ⟨none, "emails", ["not"]⟩)) none,
    by decide +kernel, by decide +kernel, ?_⟩
  · rw [← @parseFilter_render_iff "emails[x:type eq 1.5]" _ (by decide +kernel)]
    · decide +kernel
    · intro c hc x hx
      obtain rfl := List.mem_singleton.mp hc
      cases hx
      decide +kernel
  · rw [← @parseFilter_render_iff "emails[x:not pr]" _ (by decide +kernel)]
    · decide +kernel
    · intro c hc x hx
      obtain rfl := List.mem_singleton.mp hc
      cases hx

end Scim
