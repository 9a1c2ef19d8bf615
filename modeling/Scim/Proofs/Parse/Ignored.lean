import Mathlib.Algebra.GroupWithZero.Nat
import Scim.Proofs.Parse.PathGrammar

/-!
# `Scim.Proofs.Parse.Ignored`: tokens that are not in the tree

A comparison operator stands for a comparison and `not` for a negation, so one would expect as many
of these nodes in a tree as there are such tokens in the text. At its end a path is checked for
tokens that were not read, and so is a predicate at the closing bracket. But the body of a group or
of a negation is not: what follows its expression is ignored, be it a predicate or not.

`Ignores` is the grammar together with the tokens that a derivation ignores, and it is the same
grammar (`Ignores.derives`, `Derives.exists_ignores`). So are the paths of `IgnoresPath`, which are
those that the parser accepts (`parsePath_eq_ok_iff_ignores`).

The ignored tokens make up the whole difference between the tokens and the nodes:

* `countKind_joined`: splicing loses connectives only, and these are not counted here.
* `Ignores.countKind_eq`, by induction on the derivation, with the ignored tokens of the parts.
* `countKind_of_parsePath`: the numbers agree for an accepted path exactly if nothing that counts is
  ignored.
-/

set_option autoImplicit false

namespace Scim

/-! ### Ignored tokens -/

/-- The grammar of filters, with the tree and the ignored tokens of each derivation, in the order of
the text. -/
inductive Ignores : Nonterminal → Bool → List Token → Node → List Token → Prop where
  | single {v : Bool} {ts ignored : List Token} {n : Node} (h : Ignores .primary v ts n ignored) :
    Ignores .expression v ts n ignored
  | joined {v : Bool} {ts us ignored ignored' : List Token} {left right : Node} {word : Token}
    {operator : LogicalOperator} (hleft : Ignores .primary v ts left ignored)
    (hword : word.kind = .logicalOperator) (hread : LogicalOperator.read word.text = .ok operator)
    (hright : Ignores .expression v us right ignored') :
    Ignores .expression v (ts ++ word :: us) (.joined operator left right) (ignored ++ ignored')
  /-- What the body ignores itself, and what stands behind its expression. -/
  | enclosed {v : Bool} {opening closing : Token} {body ignored rest : List Token} {n : Node}
    (hopen : opening.kind = .parenOpen) (hbody : Ignores .expression v body n ignored)
    (hrest : EndsBefore rest) (hmatch : Balanced (body ++ rest))
    (hclose : closing.kind = .parenClose) :
    Ignores .enclosed v (opening :: (body ++ rest ++ [closing])) n (ignored ++ rest)
  | group {v : Bool} {ts ignored : List Token} {n : Node}
    (h : Ignores .enclosed false ts n ignored) :
    Ignores .primary v ts n ignored
  | negation {v : Bool} {word : Token} {ts ignored : List Token} {n : Node}
    (hword : word.kind = .negation) (h : Ignores .enclosed v ts n ignored) :
    Ignores .primary v (word :: ts) (.negation n) ignored
  | present {v : Bool} {name word : Token} (hname : name.kind = .name)
    (hword : word.kind = .comparisonOperator) (hread : Operator.read word.text = .ok .pr) :
    Ignores .primary v [name, word] (.comparison (.present (.ofName name.text))) []
  | comparison {v : Bool} {name word literal : Token} {operator : Operator} {value : Value}
    (hname : name.kind = .name) (hword : word.kind = .comparisonOperator)
    (hread : Operator.read word.text = .ok operator) (hoperator : operator ≠ .pr)
    (hliteral : literal.kind ∈ TokenKind.literals) (hvalue : literal.literal? = some value) :
    Ignores .primary v [name, word, literal]
      (.comparison (.make (.ofName name.text) operator (some value))) []
  | valuePath {name opening closing : Token} {body ignored : List Token} {n : Node}
    (hname : name.kind = .name) (hsingle : (AttributePath.ofName name.text).length = 1)
    (hopen : opening.kind = .bracketOpen) (hbody : Ignores .expression true body n ignored)
    (hplain : ∀ m ∈ n.preorder, m.kind ≠ .valuePath) (hclose : closing.kind = .bracketClose) :
    Ignores .primary false (name :: opening :: (body ++ [closing]))
      (.valuePath (.ofName name.text) (n.under (.ofName name.text)) none) ignored

/-- The same for paths: nothing is ignored outside of the brackets. -/
inductive IgnoresPath : List Token → PathExpression → List Token → Prop where
  | bare {name : Token} (hname : name.kind = .name) :
    IgnoresPath [name] (.attribute (.ofName name.text)) []
  | value {name : Token} {ts ignored : List Token} {path : AttributePath} {predicate : Node}
    (hname : name.kind = .name)
    (h : Ignores .primary false (name :: ts) (.valuePath path predicate none) ignored) :
    IgnoresPath (name :: ts) (.value (.make path predicate)) ignored
  | subAttribute {name sub : Token} {ts ignored : List Token} {path : AttributePath}
    {predicate : Node} (hname : name.kind = .name)
    (h : Ignores .primary false (name :: ts) (.valuePath path predicate none) ignored)
    (hsub : sub.kind = .subAttribute) :
    IgnoresPath (name :: ts ++ [sub])
      (.value ((ValuePath.make path predicate).withSubAttribute
        (String.ofList sub.text.toList.tail))) ignored

section
variable {nt : Nonterminal} {v : Bool} {ts ignored : List Token} {n : Node} {e : PathExpression}

/-- A derivation that knows what it ignores is a derivation. -/
theorem Ignores.derives (h : Ignores nt v ts n ignored) : Derives nt v ts n := by
  induction h with
  | single h ih => exact .single ih
  | joined hleft hword hread hright ihleft ihright => exact .joined ihleft hword hread ihright
  | enclosed hopen hbody hrest hmatch hclose ih => exact .enclosed hopen ih hrest hmatch hclose
  | group h ih => exact .group ih
  | negation hword h ih => exact .negation hword ih
  | present hname hword hread => exact .present hname hword hread
  | comparison hname hword hread hoperator hliteral hvalue =>
      exact .comparison hname hword hread hoperator hliteral hvalue
  | valuePath hname hsingle hopen hbody hplain hclose ih =>
      exact .valuePath hname hsingle hopen ih hplain hclose

/-- Every derivation ignores some tokens, or none. -/
theorem Derives.exists_ignores (h : Derives nt v ts n) : ∃ ignored, Ignores nt v ts n ignored := by
  induction h with
  | single h ih =>
      obtain ⟨ignored, ih⟩ := ih
      exact ⟨ignored, .single ih⟩
  | joined hleft hword hread hright ihleft ihright =>
      obtain ⟨ignored, ihleft⟩ := ihleft
      obtain ⟨ignored', ihright⟩ := ihright
      exact ⟨ignored ++ ignored', .joined ihleft hword hread ihright⟩
  | @enclosed v opening closing body rest n hopen hbody hrest hmatch hclose ih =>
      obtain ⟨ignored, ih⟩ := ih
      -- Only here is something ignored that is not ignored further inside.
      exact ⟨ignored ++ rest, .enclosed hopen ih hrest hmatch hclose⟩
  | group h ih =>
      obtain ⟨ignored, ih⟩ := ih
      exact ⟨ignored, .group ih⟩
  | negation hword h ih =>
      obtain ⟨ignored, ih⟩ := ih
      exact ⟨ignored, .negation hword ih⟩
  | present hname hword hread => exact ⟨[], .present hname hword hread⟩
  | comparison hname hword hread hoperator hliteral hvalue =>
      exact ⟨[], .comparison hname hword hread hoperator hliteral hvalue⟩
  | valuePath hname hsingle hopen hbody hplain hclose ih =>
      obtain ⟨ignored, ih⟩ := ih
      exact ⟨ignored, .valuePath hname hsingle hopen ih hplain hclose⟩

/-- Every derivation of a path ignores some tokens, or none. -/
theorem DerivesPath.exists_ignores (h : DerivesPath ts e) :
    ∃ ignored, IgnoresPath ts e ignored := by
  cases h with
  | bare hname => exact ⟨[], .bare hname⟩
  | value hname h =>
      obtain ⟨ignored, h⟩ := h.exists_ignores
      exact ⟨ignored, .value hname h⟩
  | subAttribute hname h hsub =>
      obtain ⟨ignored, h⟩ := h.exists_ignores
      exact ⟨ignored, .subAttribute hname h hsub⟩

/-- A path that is known with what it ignores is a path. -/
theorem IgnoresPath.derives (h : IgnoresPath ts e ignored) : DerivesPath ts e := by
  cases h with
  | bare hname => exact .bare hname
  | value hname h => exact .value hname h.derives
  | subAttribute hname h hsub => exact .subAttribute hname h.derives hsub

end

/-- An accepted path ignores certain tokens, and every derivation that does so is accepted. -/
theorem parsePath_eq_ok_iff_ignores {input : String} {e : PathExpression} :
    parsePath input = .ok e ↔
      ∃ ts ignored, tokensFrom .path 0 input.toList = .ok ts ∧ IgnoresPath ts e ignored := by
  rw [parsePath_eq_ok_iff_derives]
  constructor
  · rintro ⟨ts, hscan, h⟩
    obtain ⟨ignored, h⟩ := h.exists_ignores
    exact ⟨ts, ignored, hscan, h⟩
  · rintro ⟨ts, ignored, hscan, h⟩
    exact ⟨ts, hscan, h.derives⟩

/-! ### Counting -/

/-- There are no tokens of a kind among those that are all of other kinds. -/
theorem countKind_eq_zero_iff {k : TokenKind} {ts : List Token} :
    countKind k ts = 0 ↔ ∀ t ∈ ts, t.kind ≠ k := by
  simp [countKind]

namespace Node

/-- How many nodes of a tree are of a kind. -/
def countKind (k : NodeKind) (n : Node) : Nat :=
  (n.preorder.map kind).count k

/-- A comparison is one node. -/
@[simp]
theorem countKind_comparison (k : NodeKind) (c : Comparison) :
    (Node.comparison c).countKind k = if .comparison = k then 1 else 0 := by
  simp [countKind, preorder, kind, List.count_cons]

/-- A negation is a node above the one it negates. -/
@[simp]
theorem countKind_negation (k : NodeKind) (inner : Node) :
    (Node.negation inner).countKind k = inner.countKind k + if .negation = k then 1 else 0 := by
  simp [countKind, preorder, kind, List.count_cons]

/-- A value path is a node above its predicate. -/
@[simp]
theorem countKind_valuePath (k : NodeKind) (path : AttributePath) (predicate : Node)
    (subAttribute? : Option String) :
    (Node.valuePath path predicate subAttribute?).countKind k
      = predicate.countKind k + if .valuePath = k then 1 else 0 := by
  simp [countKind, preorder, kind, List.count_cons]

/-- Other paths do not change the kinds of nodes. -/
@[simp]
theorem countKind_under (k : NodeKind) (n : Node) (path : AttributePath) :
    (n.under path).countKind k = n.countKind k := by
  rw [countKind, under, kinds_mapPaths, countKind]

section
variable {k : NodeKind} (hk : ∀ operator operands, (Node.connective operator operands).kind ≠ k)

include hk

/-- A connective of another kind adds nothing to its operands. -/
theorem countKind_connective (operator : LogicalOperator) (operands : List Node) :
    (Node.connective operator operands).countKind k = (operands.map (countKind k)).sum := by
  rw [countKind, preorder, List.map_cons, List.count_cons_of_ne (hk operator operands),
    preorderAll_eq_flatMap, List.map_flatMap, List.count_flatMap]
  rfl

/-- A node has the same nodes below it, of other kinds than connectives, if it is spliced. -/
theorem countKind_spliced (operator : LogicalOperator) (n : Node) :
    ((n.spliced operator).map (countKind k)).sum = n.countKind k := by
  by_cases h : n.logicalOperator? = some operator
  · cases n with
    | connective operator' operands =>
        cases h
        rw [spliced_connective, countKind_connective hk]
    | _ => contradiction
  · rw [spliced_of_ne h, List.map_singleton, List.sum_singleton]

/-- Joining two trees can lose a connective, but no other node. -/
theorem countKind_joined (operator : LogicalOperator) (left right : Node) :
    (Node.joined operator left right).countKind k = left.countKind k + right.countKind k := by
  rw [joined_eq, countKind_connective hk, List.map_append, List.sum_append, countKind_spliced hk,
    countKind_spliced hk]

end

end Node

/-! ### Tokens and nodes -/

/-- The tokens that stand for one node each, and the nodes they stand for. -/
inductive StandsFor : TokenKind → NodeKind → Prop where
  | comparison : StandsFor .comparisonOperator .comparison
  | negation : StandsFor .negation .negation

namespace StandsFor

variable {t : TokenKind} {k : NodeKind} (h : StandsFor t k)

include h

/-- What tokens stand for here are no connectives. -/
theorem connective_ne (operator : LogicalOperator) (operands : List Node) :
    (Node.connective operator operands).kind ≠ k := by
  cases h <;> cases operator <;> simp [Node.kind]

/-- A token of another kind does not count. -/
theorem countKind_other {token : Token}
    (hkind : token.kind ∈ [TokenKind.name, .logicalOperator, .parenOpen, .parenClose, .bracketOpen,
      .bracketClose, .subAttribute] ++ TokenKind.literals) (ts : List Token) :
    countKind t (token :: ts) = countKind t ts := by
  have hne : token.kind ≠ t := by
    generalize token.kind = kind at hkind
    rintro rfl
    cases h <;> revert hkind <;> decide
  rw [countKind_cons, if_neg hne, Nat.add_zero]

end StandsFor

/-- Each of these tokens is a node of the tree, unless it is ignored. -/
theorem Ignores.countKind_eq {t : TokenKind} {k : NodeKind} (hstands : StandsFor t k)
    {nt : Nonterminal} {v : Bool} {ts ignored : List Token} {n : Node}
    (h : Ignores nt v ts n ignored) :
    countKind t ts = n.countKind k + countKind t ignored := by
  have hother := @hstands.countKind_other
  induction h with
  | single h ih => exact ih
  | joined hleft hword hread hright ihleft ihright =>
      rw [countKind_append, countKind_append, hother (by simp [hword]), ihleft, ihright,
        Node.countKind_joined hstands.connective_ne]
      omega
  | enclosed hopen hbody hrest hmatch hclose ih =>
      -- What stands behind the body is counted with the ignored tokens.
      rw [hother (by simp [hopen]), countKind_append, countKind_append, countKind_append,
        hother (by simp [hclose]), ih, countKind_nil]
      omega
  | group h ih => exact ih
  | negation hword h ih =>
      -- The keyword counts if negations are counted, and then so does the node.
      rw [countKind_cons, ih, Node.countKind_negation, hword]
      cases hstands <;> simp
      omega
  | present hname hword hread =>
      rw [hother (by simp [hname]), countKind_cons, hword]
      cases hstands <;> simp
  | comparison hname hword hread hoperator hliteral hvalue =>
      rw [hother (by simp [hname]), countKind_cons, hother (by simp [hliteral]), hword]
      cases hstands <;> simp
  | valuePath hname hsingle hopen hbody hplain hclose ih =>
      rw [hother (by simp [hname]), hother (by simp [hopen]), countKind_append,
        hother (by simp [hclose]), ih]
      cases hstands <;> simp

/-- The same for a path: it ignores what its predicate does. -/
theorem IgnoresPath.countKind_eq {t : TokenKind} {k : NodeKind} (hstands : StandsFor t k)
    {ts ignored : List Token} {e : PathExpression} (h : IgnoresPath ts e ignored) :
    countKind t ts = e.toNode.countKind k + countKind t ignored := by
  cases h with
  | bare hname =>
      rw [hstands.countKind_other (by simp [hname])]
      cases hstands <;> rfl
  | value hname h => exact h.countKind_eq hstands
  | subAttribute hname h hsub =>
      rw [countKind_append, h.countKind_eq hstands, hstands.countKind_other (by simp [hsub])]
      simp [PathExpression.toNode, ValuePath.toNode, ValuePath.withSubAttribute, ValuePath.make]

/-- In the scan of an accepted path, each comparison operator is a comparison of the tree and each
`not` is a negation, but for those that are ignored. So the numbers agree exactly if none is. -/
theorem countKind_of_parsePath {input : String} {e : PathExpression}
    (h : parsePath input = .ok e) :
    ∃ tokens, tokensFrom .path 0 input.toList = .ok tokens ∧
      (∃ ignored, IgnoresPath tokens e ignored) ∧
      ∀ ignored, IgnoresPath tokens e ignored → ∀ t k, StandsFor t k →
        countKind t tokens = e.toNode.countKind k + countKind t ignored ∧
        (countKind t tokens = e.toNode.countKind k ↔ ∀ token ∈ ignored, token.kind ≠ t) := by
  obtain ⟨tokens, ignored, hscan, hignored⟩ := parsePath_eq_ok_iff_ignores.mp h
  refine ⟨tokens, hscan, ⟨ignored, hignored⟩, ?_⟩
  intro ignored hignored t k hstands
  have hcount := hignored.countKind_eq hstands
  refine ⟨hcount, ?_⟩
  rw [← countKind_eq_zero_iff]
  omega

/-- A group that is followed by a negation, in a group: the negation is accepted and dropped. -/
theorem countKind_of_parsePath_dropped :
    ∃ (e : PathExpression) (tokens ignored : List Token),
      parsePath "emails[((type eq \"work\")not (primary pr))]" = .ok e ∧
      tokensFrom .path 0 "emails[((type eq \"work\")not (primary pr))]".toList = .ok tokens ∧
      IgnoresPath tokens e ignored ∧
      (countKind .comparisonOperator tokens = 2 ∧ e.toNode.countKind .comparison = 1 ∧
        countKind .comparisonOperator ignored = 1) ∧
      countKind .negation tokens = 1 ∧ e.toNode.countKind .negation = 0 ∧
        countKind .negation ignored = 1 := by
  let e : PathExpression := .value ⟨.ofSingle "emails",
    .comparison (.make ⟨none, "emails", ["type"]⟩ .eq (some (.string "work"))), none⟩
  have hparse : parsePath "emails[((type eq \"work\")not (primary pr))]" = .ok e := by
    decide +kernel
  obtain ⟨tokens, hscan, ⟨ignored, hignored⟩, hcount⟩ := countKind_of_parsePath hparse
  have htokens : (tokensFrom .path 0 "emails[((type eq \"work\")not (primary pr))]".toList).map
      (fun ts => (countKind .comparisonOperator ts, countKind .negation ts))
      = .ok (2, 1) := by
    decide +kernel
  rw [hscan] at htokens
  obtain ⟨hoperators, hnegations⟩ := Prod.mk.inj (Except.ok.inj htokens)
  have hcomparisons : e.toNode.countKind .comparison = 1 := by decide
  have hnone : e.toNode.countKind .negation = 0 := by decide
  have hcomparison := (hcount ignored hignored _ _ .comparison).1
  have hnegation := (hcount ignored hignored _ _ .negation).1
  exact ⟨e, tokens, ignored, hparse, hscan, hignored, ⟨hoperators, hcomparisons, by omega⟩,
    hnegations, hnone, by omega⟩

end Scim
