import Scim.Json.Decode
import Scim.Proofs.Node.WellFormed
import Scim.Proofs.Parse.Accepted
import Scim.Proofs.Parse.PathGrammar

/-!
# `Scim.Proofs.Obtainable`: where trees come from

Trees are parsed, decoded from JSON, put together piece by piece, or taken out of other trees.
`Obtainable` lists these ways, and they can follow each other in any order. There is one lemma for
each of them that says that it keeps trees well formed:

* `wellFormed_of_parseFilter` and `wellFormed_of_parsePath`: what is parsed is built by the grammar
  from comparisons and value paths (`Derives.built`), and what is built so is well formed.
* `wellFormed_of_decodeNodeIn`: what is decoded comes from the constructors. There is one lemma for
  each decoder, given that the trees inside are well formed, and the induction is on the size of the
  JSON value.
* `WellFormed.child`, `WellFormed.spliced` and `wellFormed_of_connective?` of
  `Scim.Proofs.Node.WellFormed` for the rest.

Together they say that every tree is well formed (`wellFormed_of_obtainable`), by induction on the
way it was obtained.
-/

set_option autoImplicit false

namespace Scim

/-! ### Parsing -/

/-- What the grammar derives is well formed, since it is built from comparisons and value paths. -/
theorem Derives.wellFormed {mode : Mode} {nt : Nonterminal} {inValuePath : Bool} {ts : List Token}
    {n : Node} (h : Derives nt inValuePath ts n) (hscan : Scanned mode ts) : n.WellFormed :=
  (h.built hscan).wellFormed fun _ _ hv => hv.isPredicate.wellFormed fun _ _ => False.elim

/-- A filter that is read is well formed. -/
theorem wellFormed_of_parseFilter {input : String} {n : Node}
    (h : parseFilter input = .ok (some n)) : n.WellFormed := by
  obtain ⟨ts, us, hscan, -, hderives⟩ := derives_of_parseFilter h
  exact hderives.wellFormed (scanned_of_tokensFrom hscan).left

/-- So is a path. -/
theorem wellFormed_of_parsePath {input : String} {e : PathExpression}
    (h : parsePath input = .ok e) : e.toNode.WellFormed := by
  obtain ⟨ts, hscan, hderives⟩ := derivesPath_of_parsePath h
  have hscan := scanned_of_tokensFrom hscan
  cases hderives with
  | bare hname => exact Node.wellFormed_attribute _
  | value hname hderives => exact hderives.wellFormed hscan
  | subAttribute hname hderives hsub =>
      -- The sub-attribute is outside of the predicate.
      have hwhole := hderives.wellFormed hscan.left
      exact Node.wellFormed_valuePath_iff.mpr (Node.wellFormed_valuePath_iff.mp hwhole)

/-! ### Decoding -/

namespace Json

/-- Two decoders in a row succeed if both do. -/
theorem bind_eq_ok_iff {α β : Type} {x : Decoded α} {f : α → Decoded β} {b : β} :
    (x >>= f) = .ok b ↔ ∃ a, x = .ok a ∧ f a = .ok b := by
  cases x with
  | error e => simp [bind, Except.bind]
  | ok a => simp [bind, Except.bind]

/-- A decoded value that is changed was decoded before. -/
theorem map_eq_ok_iff {α β : Type} {f : α → β} {x : Decoded α} {b : β} :
    x.map f = .ok b ↔ ∃ a, x = .ok a ∧ f a = b := by
  cases x with
  | error e => simp [Except.map]
  | ok a => simp [Except.map]

/-- A value that is required has to be there. -/
theorem required_eq_ok_iff {α : Type} {a? : Option α} {a : α} :
    required a? = .ok a ↔ a? = some a := by
  cases a? <;> simp [required]

section
variable {json : Json} {decode : Smaller json}
  (h : ∀ part hpart n, decode part hpart = .ok n → n.WellFormed)

include h

/-- A tree that is decoded from a field is well formed if it is from any smaller value. -/
theorem wellFormed_of_decodeTree? {index : Nat} {name : String} {n : Node}
    (hn : decodeTree? json decode index name = .ok (some n)) : n.WellFormed := by
  unfold decodeTree? at hn
  split at hn
  · next part hpart =>
      obtain ⟨n', hdecode, hn⟩ := map_eq_ok_iff.mp hn
      cases hn
      exact h part _ n hdecode
  · simp at hn

/-- So is the tree in a negation. -/
theorem wellFormed_of_decodeInner {n : Node} (hn : decodeInner json decode = .ok n) :
    n.WellFormed := by
  obtain ⟨inner?, htree, hn⟩ := bind_eq_ok_iff.mp hn
  obtain ⟨inner, hinner, hn⟩ := bind_eq_ok_iff.mp hn
  obtain ⟨-, -, hn⟩ := bind_eq_ok_iff.mp hn
  cases hn
  rw [required_eq_ok_iff.mp hinner] at htree
  exact wellFormed_of_decodeTree? h htree

/-- So are trees in a row. -/
theorem wellFormed_of_decodeTrees {parts : List Json} {hparts : sizeAll parts < json.size}
    {nodes : List Node} (hnodes : decodeTrees json decode parts hparts = .ok nodes) :
    ∀ node ∈ nodes, node.WellFormed := by
  induction parts generalizing nodes with
  | nil =>
      cases hnodes
      simp
  | cons part parts ih =>
      obtain ⟨node, hnode, hnodes⟩ := bind_eq_ok_iff.mp hnodes
      obtain ⟨rest, hrest, hnodes⟩ := bind_eq_ok_iff.mp hnodes
      cases hnodes
      exact List.forall_mem_cons.mpr ⟨h part _ node hnode, ih hrest⟩

/-- Operands are well formed, and there are two or more. -/
theorem wellFormed_of_decodeOperands {operands : List Node}
    (hoperands : decodeOperands json decode = .ok operands) :
    2 ≤ operands.length ∧ ∀ operand ∈ operands, operand.WellFormed := by
  unfold decodeOperands at hoperands
  dsimp only at hoperands
  -- The operands are in an array; anything else is malformed.
  split at hoperands
  · next parts hparts =>
      obtain ⟨operands?, hread, hoperands⟩ := bind_eq_ok_iff.mp hoperands
      obtain ⟨nodes, hnodes, hoperands⟩ := bind_eq_ok_iff.mp hoperands
      obtain ⟨-, -, hoperands⟩ := bind_eq_ok_iff.mp hoperands
      rw [required_eq_ok_iff.mp hnodes] at hread
      obtain ⟨nodes', htrees, heq⟩ := map_eq_ok_iff.mp hread
      cases heq
      split at hoperands
      · contradiction
      · next htwo =>
          cases hoperands
          exact ⟨by omega, wellFormed_of_decodeTrees h htrees⟩
  · simp [bind, Except.bind] at hoperands
  · simp [bind, Except.bind, required] at hoperands

/-- A value path is well formed, since its predicate is. -/
theorem wellFormed_of_decodeValuePath {v : ValuePath}
    (hv : decodeValuePath json decode = .ok v) : v.toNode.WellFormed := by
  obtain ⟨path?, -, hv⟩ := bind_eq_ok_iff.mp hv
  obtain ⟨predicate?, htree, hv⟩ := bind_eq_ok_iff.mp hv
  obtain ⟨sub?, -, hv⟩ := bind_eq_ok_iff.mp hv
  obtain ⟨path, -, hv⟩ := bind_eq_ok_iff.mp hv
  obtain ⟨predicate, hpredicate, hv⟩ := bind_eq_ok_iff.mp hv
  rw [required_eq_ok_iff.mp hpredicate] at htree
  dsimp only at hv
  split at hv
  · simp [bind, Except.bind] at hv
  · obtain ⟨sub, -, hv⟩ := bind_eq_ok_iff.mp hv
    obtain ⟨-, -, hv⟩ := bind_eq_ok_iff.mp hv
    cases hv
    exact Node.wellFormed_valuePath_iff.mpr (wellFormed_of_decodeTree? h htree)

end

/-- A tree is decoded to a well-formed one, by induction on the size of the value. -/
theorem wellFormed_of_decodeNodeIn {nested : Bool} {json : Json} {n : Node}
    (hn : decodeNodeIn nested json = .ok n) : n.WellFormed := by
  -- A part of a value is smaller than the value, so its size carries the induction.
  induction hsize : json.size using Nat.strongRecOn generalizing nested json n with
  | ind size ih =>
      subst hsize
      rw [decodeNodeIn] at hn
      obtain ⟨⟨tag, fields, hfields⟩, -, hn⟩ := bind_eq_ok_iff.mp hn
      obtain ⟨kind, -, hn⟩ := bind_eq_ok_iff.mp hn
      have hparts : ∀ part, part.size < fields.size → ∀ n, decodeNodeIn true part = .ok n →
          n.WellFormed :=
        fun part hpart n hn => ih part.size (Nat.lt_of_lt_of_le hpart hfields) hn rfl
      cases kind with
      | attributePath =>
          obtain ⟨path, -, hn⟩ := bind_eq_ok_iff.mp hn
          cases hn
          exact Node.wellFormed_attribute path
      | comparison =>
          obtain ⟨c, -, hn⟩ := bind_eq_ok_iff.mp hn
          cases hn
          exact Node.wellFormed_comparison c
      | negation =>
          obtain ⟨inner, hinner, hn⟩ := bind_eq_ok_iff.mp hn
          cases hn
          exact Node.wellFormed_negation_iff.mpr (wellFormed_of_decodeInner hparts hinner)
      | conjunction =>
          obtain ⟨operands, hoperands, hn⟩ := bind_eq_ok_iff.mp hn
          cases hn
          obtain ⟨htwo, hall⟩ := wellFormed_of_decodeOperands hparts hoperands
          exact Node.wellFormed_flattened htwo hall
      | disjunction =>
          obtain ⟨operands, hoperands, hn⟩ := bind_eq_ok_iff.mp hn
          cases hn
          obtain ⟨htwo, hall⟩ := wellFormed_of_decodeOperands hparts hoperands
          exact Node.wellFormed_flattened htwo hall
      | valuePath =>
          obtain ⟨v, hv, hn⟩ := bind_eq_ok_iff.mp hn
          cases hn
          exact wellFormed_of_decodeValuePath hparts hv

end Json

/-! ### All ways -/

/-- The trees that can be had. -/
inductive Obtainable : Node → Prop where
  | filter {input : String} {n : Node} (h : parseFilter input = .ok (some n)) : Obtainable n
  | path {input : String} {e : PathExpression} (h : parsePath input = .ok e) : Obtainable e.toNode
  | comparison (path : AttributePath) (operator : Operator) (value? : Option Value) :
    Obtainable (.comparison (.make path operator value?))
  | present (path : AttributePath) : Obtainable (.comparison (.present path))
  | negation {inner : Node} (h : Obtainable inner) : Obtainable (.negation inner)
  | valuePath (collection : AttributePath) {predicate : Node} (h : Obtainable predicate) :
    Obtainable (ValuePath.make collection predicate).toNode
  | subAttribute {v : ValuePath} (h : Obtainable v.toNode) (name : String) :
    Obtainable (v.withSubAttribute name).toNode
  | connective {operator : LogicalOperator} {operands : List Node} {n : Node}
    (h : ∀ operand ∈ operands, Obtainable operand)
    (hn : Node.connective? operator operands = some n) : Obtainable n
  | child {n m : Node} (h : Obtainable n) (hm : m ∈ n.children) : Obtainable m
  | decoded {json : Json} {n : Node} (h : Json.decodeNode json = .ok n) : Obtainable n

/-- In every tree that can be had, a connective has two operands or more and none of its own kind,
exactly the comparisons with `pr` have no literal, and every path has a name. -/
theorem wellFormed_of_obtainable {n : Node} (h : Obtainable n) : n.WellFormed := by
  induction h with
  | filter h => exact wellFormed_of_parseFilter h
  | path h => exact wellFormed_of_parsePath h
  | comparison path operator value? => exact Node.wellFormed_comparison _
  | present path => exact Node.wellFormed_comparison _
  | negation h ih => exact Node.wellFormed_negation_iff.mpr ih
  | valuePath collection h ih => exact Node.wellFormed_valuePath_iff.mpr ih
  | subAttribute h name ih =>
      exact Node.wellFormed_valuePath_iff.mpr (Node.wellFormed_valuePath_iff.mp ih)
  | connective h hn ih => exact Node.wellFormed_of_connective? ih hn
  | child h hm ih => exact ih.child hm
  | decoded h => exact Json.wellFormed_of_decodeNodeIn h

/-- The JSON of a conjunction in a conjunction, under a negation, is decoded to the negation of a
conjunction of three operands. That conjunction is joined to a parsed one of two. -/
theorem wellFormed_of_obtainable_joined :
    Obtainable (.connective .and (["a", "b", "c", "d", "e"].map fun name =>
      .comparison (.present (.ofSingle name)))) ∧
    Node.WellFormed (.connective .and (["a", "b", "c", "d", "e"].map fun name =>
      .comparison (.present (.ofSingle name)))) := by
  let asked (name : String) : Node := .comparison (.present (.ofSingle name))
  have hdecoded : Json.decodeNode (Node.negation (.connective .and
        [asked "a", .connective .and [asked "b", asked "c"]])).toJson
      = .ok (.negation (.connective .and [asked "a", asked "b", asked "c"])) := by
    decide +kernel
  have hchild : Obtainable (.connective .and [asked "a", asked "b", asked "c"]) :=
    .child (.decoded hdecoded) List.mem_cons_self
  have hparsed : parseFilter "d pr and e pr"
      = .ok (some (.connective .and [asked "d", asked "e"])) := by
    decide +kernel
  have hjoin : Node.connective? .and [.connective .and [asked "a", asked "b", asked "c"],
      .connective .and [asked "d", asked "e"]]
      = some (.connective .and (["a", "b", "c", "d", "e"].map asked)) := rfl
  have hobtainable : Obtainable (.connective .and (["a", "b", "c", "d", "e"].map asked)) := by
    refine .connective ?_ hjoin
    simp only [List.forall_mem_cons, List.not_mem_nil, false_implies, implies_true, and_true]
    exact ⟨hchild, .filter hparsed⟩
  exact ⟨hobtainable, wellFormed_of_obtainable hobtainable⟩

end Scim
