import Scim.Proofs.Node.SubAttributes
import Scim.Proofs.Parse.Accepted
import Scim.Proofs.Parse.PathGrammar

/-!
# `Scim.Proofs.Parse.ValuePaths`: the value paths of accepted texts

A value path must not stand inside of another one. The parser does not look for this in one place.
An expression between brackets knows where it is, and a negation passes this on, but a group does
not: in `a[(b[c pr])]` the inner value path is read, and given up only when it is to be put below
`a`. What comes out of it is `ValuePath.Shaped`, for every nesting. The collection of a value path
is a single name, its predicate is made of comparisons, negations and connectives, and every
comparison is one name or two below the collection.

An accepted tree is known to be built from comparisons and value paths that were read
(`Node.Accepted`). So there are two steps:

* `Built.of_toNode_mem`: the value paths of such a tree are those it is built from. There are no
  others, because predicates hold none.
* `ReadFrom.shaped`: a value path that was read has the shape. Its comparisons were read with names
  of one part or two, and the collection was put in front of them.

`valuePaths_shaped` is the result, for both parsers.
-/

set_option autoImplicit false

namespace Scim

/-- The shape of a value path that was read. -/
structure ValuePath.Shaped (v : ValuePath) : Prop where
  single : v.collection.length = 1
  kinds : ∀ m ∈ v.predicate.preorder,
    m.kind ∈ [NodeKind.comparison, .negation, .conjunction, .disjunction]
  /-- Every comparison is below the collection, by one name or two. -/
  below : ∀ c ∈ v.predicate.comparisons, ∃ r : AttributePath, (r.length = 1 ∨ r.length = 2) ∧
    c.path.schema = v.collection.schema ∧ c.path.names = v.collection.names ++ r.names ∧
    c.path.relativeTo v.collection = some r

/-! ### Trees -/

namespace Node

/-- The nodes of a predicate are of four kinds. -/
theorem Simple.kind_mem {n : Node} (h : n.Simple) : ∀ m ∈ n.preorder,
    m.kind ∈ [NodeKind.comparison, .negation, .conjunction, .disjunction] := by
  intro m hm
  obtain ⟨hattribute, hvaluePath⟩ := h m hm
  cases hkind : m.kind <;> simp_all

variable {C : Comparison → Prop} {V : AttributePath → Node → Prop} {n m : Node}

/-- A node of a tree is built like the tree, or it is part of the predicate of a value path. -/
theorem Built.mem_preorder (h : n.Built C V) (hm : m ∈ n.preorder) :
    m.Built C V ∨ ∃ path predicate, V path predicate ∧ m ∈ predicate.preorder := by
  induction h with
  | comparison hc =>
      rw [List.mem_singleton.mp hm]
      exact .inl (.comparison hc)
  | negation hinner ih =>
      rcases List.mem_cons.mp hm with rfl | hm
      · exact .inl (.negation hinner)
      · exact ih hm
  | connective htwo hkind hoperands ih =>
      rcases mem_preorder_connective_iff.mp hm with rfl | ⟨operand, hoperand, hm⟩
      · exact .inl (.connective htwo hkind hoperands)
      · exact ih operand hoperand hm
  | valuePath hv =>
      rcases List.mem_cons.mp hm with rfl | hm
      · exact .inl (.valuePath hv)
      · exact .inr ⟨_, _, hv, hm⟩

/-- If predicates hold no value paths, then the value paths of a tree are those it is built from. -/
theorem Built.of_toNode_mem (h : n.Built C V)
    (hV : ∀ path predicate, V path predicate → predicate.Simple) {v : ValuePath}
    (hv : v.toNode ∈ n.preorder) : v.subAttribute? = none ∧ V v.path v.predicate := by
  rcases h.mem_preorder hv with hbuilt | ⟨path, predicate, hpredicate, hm⟩
  · obtain ⟨path, predicate, subAttribute?⟩ := v
    cases hbuilt with
    | valuePath hv => exact ⟨rfl, hv⟩
  · exact absurd rfl (hV path predicate hpredicate _ hm).2

end Node

/-! ### Value paths that were read -/

namespace ValuePath

/-- The node of a value path tells its parts. -/
theorem toNode_injective {v w : ValuePath} (h : v.toNode = w.toNode) : v = w := by
  cases v
  cases w
  simpa [toNode] using h

/-- A sub-attribute changes neither the collection nor the predicate. -/
theorem Shaped.withSubAttribute {v : ValuePath} (h : v.Shaped) (name : String) :
    (v.withSubAttribute name).Shaped := by
  refine ⟨?_, h.kinds, ?_⟩
  · rw [collection_withSubAttribute]
    exact h.single
  · rw [collection_withSubAttribute]
    exact h.below

/-- What was read is shaped. -/
theorem ReadFrom.shaped {mode : Mode} {v : ValuePath}
    (h : ReadFrom mode v.collection v.predicate) : v.Shaped := by
  refine ⟨h.single, h.isPredicate.simple.kind_mem, ?_⟩
  intro c hc
  -- Before it was put below the collection, the path was a name of the scan.
  obtain ⟨body, hbody, hpredicate⟩ := h.body
  rw [hpredicate, Node.under, Node.comparisons_mapPaths hbody.simple] at hc
  obtain ⟨c', hc', rfl⟩ := List.mem_map.mp hc
  obtain ⟨name, word, ts, hscan, hname, -, hpath, -⟩ := hbody.forall_comparisons c' hc'
  have htwo : c'.path.length ≤ 2 := hpath ▸ hscan.length_le_two hname
  have hone : 1 ≤ c'.path.length := by simp [AttributePath.length, AttributePath.names]
  refine ⟨⟨none, c'.path.first, c'.path.inner⟩, ?_, rfl, ?_, ?_⟩
  · show c'.path.length = 1 ∨ c'.path.length = 2
    omega
  · simp [AttributePath.prefixedBy, AttributePath.names]
  · exact AttributePath.relativeTo_prefixedBy c'.path v.collection

end ValuePath

/-- Every value path in the tree of an expression is shaped, and none has a sub-attribute. -/
theorem Derives.valuePath_shaped {mode : Mode} {nt : Nonterminal} {inValuePath : Bool}
    {ts : List Token} {n : Node} (h : Derives nt inValuePath ts n) (hscan : Scanned mode ts)
    {v : ValuePath} (hv : v.toNode ∈ n.preorder) : v.subAttribute? = none ∧ v.Shaped := by
  obtain ⟨hnone, hread⟩ := (h.built hscan).of_toNode_mem (fun _ _ h => h.isPredicate.simple) hv
  have hcollection : v.collection = v.path := by
    simp [ValuePath.collection, ValuePath.collectionOf, hnone]
  rw [← hcollection] at hread
  exact ⟨hnone, hread.shaped⟩

/-- Every value path in a path is shaped. The path itself may have a sub-attribute. -/
theorem DerivesPath.valuePath_shaped {ts : List Token} {e : PathExpression} (h : DerivesPath ts e)
    (hscan : Scanned .path ts) {v : ValuePath} (hv : v.toNode ∈ e.toNode.preorder) : v.Shaped := by
  cases h with
  | bare hname => exact absurd (List.mem_singleton.mp hv) (by simp [ValuePath.toNode])
  | value hname hderives => exact (hderives.valuePath_shaped hscan hv).2
  | @subAttribute name sub ts path predicate hname hderives hsub =>
      have hshaped : ∀ w : ValuePath,
          w.toNode ∈ (Node.valuePath path predicate none).preorder → w.Shaped :=
        fun w hw => (hderives.valuePath_shaped hscan.left hw).2
      -- It is the whole path, or it would have to stand in the predicate.
      rcases List.mem_cons.mp hv with heq | hmem
      · rw [ValuePath.toNode_injective heq]
        exact (hshaped (.make path predicate) List.mem_cons_self).withSubAttribute _
      · exact hshaped v (List.mem_cons_of_mem _ hmem)

/-! ### Accepted texts -/

/-- Every value path of an accepted text has its shape, whether the text is a filter or a path, and
whatever groups and negations stand between its brackets. In a filter there is moreover no
attribute on its own, and no value path has a sub-attribute. -/
theorem valuePaths_shaped :
    (∀ (input : String) (n : Node), parseFilter input = .ok (some n) →
      (∀ v : ValuePath, v.toNode ∈ n.preorder → v.Shaped ∧ v.subAttribute? = none) ∧
      ∀ m ∈ n.preorder, m.kind ≠ .attributePath) ∧
    ∀ (input : String) (e : PathExpression), parsePath input = .ok e →
      ∀ v : ValuePath, v.toNode ∈ e.toNode.preorder → v.Shaped := by
  constructor
  · intro input n h
    obtain ⟨ts, us, hscan, -, hderives⟩ := derives_of_parseFilter h
    have hscan := (scanned_of_tokensFrom hscan).left
    refine ⟨fun v hv => ?_, hderives.kind_ne_attributePath⟩
    obtain ⟨hnone, hshaped⟩ := hderives.valuePath_shaped hscan hv
    exact ⟨hshaped, hnone⟩
  · intro input e h v hv
    obtain ⟨ts, hscan, hderives⟩ := derivesPath_of_parsePath h
    exact hderives.valuePath_shaped (scanned_of_tokensFrom hscan) hv

/-- A negation in a group in a value path, and a value path with a schema and a sub-attribute. -/
theorem valuePaths_shaped_nested :
    (parseFilter "a[(b pr or not ((c.d eq 1)))] and e pr"
        = .ok (some (.connective .and [.valuePath (.ofSingle "a")
            (.connective .or [.comparison (.present ⟨none, "a", ["b"]⟩),
              .negation (.comparison (.make ⟨none, "a", ["c", "d"]⟩ .eq (some (.integer 1))))])
            none,
            .comparison (.present (.ofSingle "e"))])) ∧
      ValuePath.Shaped ⟨.ofSingle "a",
        .connective .or [.comparison (.present ⟨none, "a", ["b"]⟩),
          .negation (.comparison (.make ⟨none, "a", ["c", "d"]⟩ .eq (some (.integer 1))))], none⟩) ∧
    parsePath "urn:x:a[b pr].v"
      = .ok (.value ⟨⟨some "urn:x", "a", ["v"]⟩,
          .comparison (.present ⟨some "urn:x", "a", ["b"]⟩), some "v"⟩) ∧
    ValuePath.Shaped ⟨⟨some "urn:x", "a", ["v"]⟩,
      .comparison (.present ⟨some "urn:x", "a", ["b"]⟩), some "v"⟩ := by
  have hfilter : parseFilter "a[(b pr or not ((c.d eq 1)))] and e pr"
      = .ok (some (.connective .and [.valuePath (.ofSingle "a")
          (.connective .or [.comparison (.present ⟨none, "a", ["b"]⟩),
            .negation (.comparison (.make ⟨none, "a", ["c", "d"]⟩ .eq (some (.integer 1))))])
          none,
          .comparison (.present (.ofSingle "e"))])) := by
    decide +kernel
  have hpath : parsePath "urn:x:a[b pr].v"
      = .ok (.value ⟨⟨some "urn:x", "a", ["v"]⟩,
          .comparison (.present ⟨some "urn:x", "a", ["b"]⟩), some "v"⟩) := by
    decide +kernel
  refine ⟨⟨hfilter, ?_⟩, hpath, ?_⟩
  · exact ((valuePaths_shaped.1 _ _ hfilter).1 ⟨_, _, _⟩
      (by simp [Node.preorder, ValuePath.toNode])).1
  · exact valuePaths_shaped.2 _ _ hpath _ List.mem_cons_self

end Scim
