import Mathlib.Data.List.Perm.Subperm
import Scim.Proofs.Node.Writable
import Scim.Proofs.Parse.Ignored
import Scim.Proofs.Token.Partition

/-!
# `Scim.Proofs.Parse.Predicates`: where the parts of a tree come from

A predicate of a text is a name, a comparison operator and, unless that is `pr`, a literal. It can
be seen in the tokens without reading them as an expression (`predicatesOf`), and in the tree
(`Node.predicates`), where the comparisons of a value path are taken out from below its collection
again. Nothing is read twice or in another order, so the predicates of the tree are predicates of
the text, in the same order. Some of the text can be missing, as what follows the expression of a
group is ignored.

* `predicates_joined`: joining two trees puts the predicates of both in a row, spliced or not.
* `predicatesIn_under`: a tree that is moved below a collection keeps its predicates.
* `Derives.predicates_sublist`, from these two by induction on the derivation.

In the same way every node has a token of its own, since splicing and moving below a collection make
no nodes (`Derives.tokens_subperm`). Counting tokens of one kind then bounds the nodes of the kind
that they stand for.

`predicates_of_parseFilter` is the result.
-/

set_option autoImplicit false

namespace Scim

/-- What a comparison says: of which names, with which operator and which literal. -/
structure Predicate where
  names : List String
  operator : Operator
  value? : Option Value
  deriving DecidableEq

/-! ### In the tokens -/

/-- The predicate that tokens start with. -/
def predicateAt? : List Token → Option Predicate
  | name :: word :: rest =>
    if name.kind = .name ∧ word.kind = .comparisonOperator then
      match Operator.read word.text with
      | .ok operator =>
        if operator.isUnary then some ⟨(AttributePath.ofName name.text).names, operator, none⟩
        else
          (rest.head?.bind Token.literal?).map fun value =>
            ⟨(AttributePath.ofName name.text).names, operator, some value⟩
      | .error _ => none
    else none
  | _ => none

/-- The predicates in a list of tokens, in the order of the text. -/
def predicatesOf : List Token → List Predicate
  | [] => []
  | t :: ts => (predicateAt? (t :: ts)).toList ++ predicatesOf ts

/-- A predicate does not depend on what follows it. -/
theorem predicateAt?_append {ts : List Token} {p : Predicate} (h : predicateAt? ts = some p)
    (us : List Token) : predicateAt? (ts ++ us) = some p := by
  match ts with
  | name :: word :: literal :: rest =>
      rw [predicateAt?, List.head?_cons] at h
      rw [List.cons_append, List.cons_append, List.cons_append, predicateAt?, List.head?_cons, h]
  | [name, word] =>
      -- Only `pr` is complete without a literal.
      simp only [predicateAt?, List.head?_nil, Option.bind_none, Option.map_none] at h
      rw [List.cons_append, List.cons_append, predicateAt?]
      grind
  | [name] => simp [predicateAt?] at h
  | [] => simp [predicateAt?] at h

/-- The predicates of two lists are found in the lists in a row. There may be another one where they
meet. -/
theorem predicatesOf_append_sublist (ts us : List Token) :
    (predicatesOf ts ++ predicatesOf us).Sublist (predicatesOf (ts ++ us)) := by
  induction ts with
  | nil => exact List.Sublist.refl _
  | cons t ts ih =>
      have hfirst : (predicateAt? (t :: ts)).toList.Sublist
          (predicateAt? (t :: (ts ++ us))).toList := by
        cases hat : predicateAt? (t :: ts) with
        | none => exact List.nil_sublist _
        | some p =>
            have happend := predicateAt?_append hat us
            rw [List.cons_append] at happend
            rw [happend]
      rw [List.cons_append, predicatesOf, predicatesOf, List.append_assoc]
      exact hfirst.append ih

/-- The predicates in the middle of a list are among those of the list. -/
theorem predicatesOf_sublist {ts us : List Token} (h : ts <:+: us) :
    (predicatesOf ts).Sublist (predicatesOf us) := by
  obtain ⟨before, after, rfl⟩ := h
  have hbefore := predicatesOf_append_sublist before ts
  have hafter := predicatesOf_append_sublist (before ++ ts) after
  exact ((List.sublist_append_right _ _).trans hbefore).trans
    ((List.sublist_append_left _ _).trans hafter)

/-! ### In the tree -/

namespace Node

mutual
/-- Every comparison of a tree that stands in a collection or in none, with the collection it is
in. -/
def comparisonsIn (collection? : Option AttributePath) :
    Node → List (Option AttributePath × Comparison)
  | .attribute _ => []
  | .comparison c => [(collection?, c)]
  | .negation inner => comparisonsIn collection? inner
  | .connective _ operands => comparisonsInAll collection? operands
  | .valuePath path predicate sub =>
    comparisonsIn (some (ValuePath.collectionOf path sub)) predicate

/-- Every comparison of some trees, one tree after the other. -/
def comparisonsInAll (collection? : Option AttributePath) :
    List Node → List (Option AttributePath × Comparison)
  | [] => []
  | node :: nodes => comparisonsIn collection? node ++ comparisonsInAll collection? nodes
end

/-- The comparisons of some trees are those of each of them. -/
@[simp]
theorem comparisonsInAll_eq_flatMap (collection? : Option AttributePath) (nodes : List Node) :
    comparisonsInAll collection? nodes = nodes.flatMap (comparisonsIn collection?) := by
  induction nodes with
  | nil => rfl
  | cons node nodes ih => rw [comparisonsInAll, ih, List.flatMap_cons]

/-- These are the comparisons of the tree, in the order of the traversal. -/
theorem map_snd_comparisonsIn (collection? : Option AttributePath) (node : Node) :
    (node.comparisonsIn collection?).map Prod.snd = node.comparisons := by
  induction node generalizing collection? with
  | attributePath path => rfl
  | comparison c => rfl
  | negation inner ih => exact ih collection?
  | connective operator operands ih =>
      rw [comparisonsIn, comparisonsInAll_eq_flatMap, comparisons_connective, List.map_flatMap]
      exact List.flatMap_congr fun operand hoperand => ih operand hoperand collection?
  | valuePath path predicate sub ih => exact ih _

end Node

/-- What a comparison says, without the names of the collection it is in. -/
def Predicate.ofComparison (collection? : Option AttributePath) (c : Comparison) : Predicate :=
  ⟨((collection?.bind c.path.relativeTo).getD c.path).names, c.operator, c.value?⟩

namespace Node

/-- The predicates of a tree that stands in a collection or in none. -/
def predicatesIn (collection? : Option AttributePath) (node : Node) : List Predicate :=
  (node.comparisonsIn collection?).map fun (collection?, c) => .ofComparison collection? c

/-- The predicates of a tree, in the order of the traversal. -/
def predicates (node : Node) : List Predicate :=
  node.predicatesIn none

/-- The predicates of a connective are those of its operands. -/
theorem predicatesIn_connective (collection? : Option AttributePath) (operator : LogicalOperator)
    (operands : List Node) :
    (Node.connective operator operands).predicatesIn collection?
      = operands.flatMap (predicatesIn collection?) := by
  rw [predicatesIn, comparisonsIn, comparisonsInAll_eq_flatMap, List.map_flatMap]
  rfl

/-- Splicing keeps the predicates. -/
theorem predicates_spliced (operator : LogicalOperator) (node : Node) :
    (node.spliced operator).flatMap predicates = node.predicates := by
  by_cases h : node.logicalOperator? = some operator
  · cases node with
    | connective operator' operands =>
        cases h
        rw [spliced_connective, predicates, predicatesIn_connective]
        rfl
    | _ => contradiction
  · rw [spliced_of_ne h, List.flatMap_singleton]

/-- Joined trees have the predicates of both. -/
theorem predicates_joined (operator : LogicalOperator) (left right : Node) :
    (joined operator left right).predicates = left.predicates ++ right.predicates := by
  rw [joined_eq, predicates, predicatesIn_connective]
  show List.flatMap predicates _ = _
  rw [List.flatMap_append, predicates_spliced, predicates_spliced]

/-- Below a collection, a tree has the predicates it had before. -/
theorem predicatesIn_under {node : Node} (h : node.Simple) (collection : AttributePath) :
    (node.under collection).predicatesIn (some collection) = node.predicates := by
  unfold under predicates
  induction node with
  | attributePath path => simp [Simple, preorder, kind] at h
  | comparison c =>
      simp [predicatesIn, mapPaths, comparisonsIn, Predicate.ofComparison,
        AttributePath.relativeTo_prefixedBy, AttributePath.names]
  | negation inner ih => exact ih (simple_negation_iff.mp h)
  | connective operator operands ih =>
      rw [mapPaths, mapPathsAll_eq_map, predicatesIn_connective, predicatesIn_connective,
        List.flatMap_map]
      exact List.flatMap_congr fun operand hoperand =>
        ih operand hoperand (simple_connective_iff.mp h operand hoperand)
  | valuePath path predicate sub ih => simp [Simple, preorder, kind] at h

end Node

/-- The predicates of a tree are among those of its tokens, in the same order. -/
theorem Derives.predicates_sublist {nt : Nonterminal} {v : Bool} {ts : List Token} {n : Node}
    (h : Derives nt v ts n) : n.predicates.Sublist (predicatesOf ts) := by
  induction h with
  | single h ih => exact ih
  | @joined v ts us left right word operator hleft hword hread hright ihleft ihright =>
      rw [Node.predicates_joined]
      have hus : us <:+: word :: us := (List.suffix_cons word us).isInfix
      exact (ihleft.append (ihright.trans (predicatesOf_sublist hus))).trans
        (predicatesOf_append_sublist ts (word :: us))
  | @enclosed v opening closing body ignored n hopen hbody hignored hmatch hclose ih =>
      -- The predicates of the ignored tokens are those that may be missing.
      exact ih.trans (predicatesOf_sublist ⟨[opening], ignored ++ [closing], by simp⟩)
  | group h ih => exact ih
  | @negation v word ts n hword h ih =>
      exact ih.trans (predicatesOf_sublist (List.suffix_cons word ts).isInfix)
  | present hname hword hread =>
      simp [predicatesOf, predicateAt?, hname, hword, hread, Node.predicates, Node.predicatesIn,
        Node.comparisonsIn, Predicate.ofComparison, Comparison.present, Comparison.make,
        Comparison.literalFor, Operator.isUnary]
  | @comparison v name word literal operator value hname hword hread hoperator hliteral hvalue =>
      have hunary := isUnary_of_ne_pr hoperator
      simp [predicatesOf, predicateAt?, hname, hword, hread, hvalue, hunary, Node.predicates,
        Node.predicatesIn, Node.comparisonsIn, Predicate.ofComparison, Comparison.make,
        Comparison.literalFor]
  | @valuePath name opening closing body n hname hsingle hopen hbody hplain hclose ih =>
      -- The predicate is moved below the collection, and its predicates are taken out again.
      have hsimple : n.Simple := fun m hm => ⟨hbody.kind_ne_attributePath m hm, hplain m hm⟩
      show (n.under _).predicatesIn (some (.ofName name.text)) |>.Sublist _
      rw [Node.predicatesIn_under hsimple]
      exact ih.trans (predicatesOf_sublist ⟨[name, opening], [closing], by simp⟩)

/-! ### A token for every node -/

/-- The kind of token that stands for a node of this kind and for no other node. -/
def NodeKind.token : NodeKind → TokenKind
  | .attributePath => .name
  | .comparison => .comparisonOperator
  | .negation => .negation
  | .conjunction | .disjunction => .logicalOperator
  | .valuePath => .bracketOpen

namespace Node

/-- The kinds of the tokens that stand for the nodes of a tree. -/
def tokenKinds (node : Node) : List TokenKind :=
  node.preorder.map (·.kind.token)

/-- Other paths do not change the tokens that nodes stand for. -/
theorem tokenKinds_mapPaths (f : AttributePath → AttributePath) (node : Node) :
    (node.mapPaths f).tokenKinds = node.tokenKinds := by
  have hkinds := congrArg (List.map NodeKind.token) (kinds_mapPaths f node)
  rwa [List.map_map, List.map_map] at hkinds

/-- A connective has a token of its own, and those of its operands. -/
theorem tokenKinds_connective (operator : LogicalOperator) (operands : List Node) :
    (Node.connective operator operands).tokenKinds
      = .logicalOperator :: operands.flatMap tokenKinds := by
  cases operator <;>
    rw [tokenKinds, preorder, preorderAll_eq_flatMap, List.map_cons, List.map_flatMap] <;> rfl

/-- Splicing can lose a connective, and does not add anything. -/
theorem tokenKinds_spliced (operator : LogicalOperator) (node : Node) :
    ((node.spliced operator).flatMap tokenKinds).Sublist node.tokenKinds := by
  by_cases h : node.logicalOperator? = some operator
  · cases node with
    | connective operator' operands =>
        cases h
        rw [spliced_connective, tokenKinds_connective]
        exact List.sublist_cons_self _ _
    | _ => contradiction
  · rw [spliced_of_ne h, List.flatMap_singleton]

end Node

/-- Every node of a tree has a token of its own. -/
theorem Derives.tokens_subperm {nt : Nonterminal} {v : Bool} {ts : List Token} {n : Node}
    (h : Derives nt v ts n) : n.tokenKinds.Subperm (ts.map Token.kind) := by
  induction h with
  | single h ih => exact ih
  | @joined v ts us left right word operator hleft hword hread hright ihleft ihright =>
      -- The token of the connective stands between those of its operands.
      rw [Node.joined_eq, Node.tokenKinds_connective, List.flatMap_append, List.map_append,
        List.map_cons, hword]
      refine List.Subperm.trans ?_ List.perm_middle.symm.subperm
      refine (List.subperm_cons _).mpr ?_
      exact ((Node.tokenKinds_spliced operator left).subperm.trans ihleft).append
        ((Node.tokenKinds_spliced operator right).subperm.trans ihright)
  | @enclosed v opening closing body ignored n hopen hbody hignored hmatch hclose ih =>
      have hbody : body.Sublist (opening :: (body ++ ignored ++ [closing])) :=
        List.IsInfix.sublist ⟨[opening], ignored ++ [closing], by simp⟩
      exact ih.trans (hbody.map Token.kind).subperm
  | group h ih => exact ih
  | negation hword h ih =>
      rw [List.map_cons, hword]
      exact (List.subperm_cons _).mpr ih
  | present hname hword hread =>
      exact List.singleton_subperm_iff.mpr (by simp [Node.kind, NodeKind.token, hword])
  | comparison hname hword hread hoperator hliteral hvalue =>
      exact List.singleton_subperm_iff.mpr (by simp [Node.kind, NodeKind.token, hword])
  | @valuePath name opening closing body n hname hsingle hopen hbody hplain hclose ih =>
      have hbody : (body.map Token.kind).Sublist ((body ++ [closing]).map Token.kind) :=
        (List.sublist_append_left body _).map Token.kind
      have hpredicate : (n.under (.ofName name.text)).tokenKinds = n.tokenKinds :=
        Node.tokenKinds_mapPaths _ n
      rw [List.map_cons, List.map_cons, hopen]
      refine List.Subperm.trans ?_ (List.sublist_cons_self _ _).subperm
      show List.Subperm (TokenKind.bracketOpen :: (n.under _).tokenKinds) _
      rw [hpredicate]
      exact (List.subperm_cons _).mpr (ih.trans hbody.subperm)

/-- Counting the tokens of a kind that stands for nodes of one kind alone. -/
theorem count_token {k : NodeKind} (hk : ∀ k' : NodeKind, k'.token = k.token ↔ k' = k) (n : Node) :
    n.tokenKinds.count k.token = n.countKind k := by
  rw [Node.tokenKinds, Node.countKind, List.count, List.countP_map, List.count, List.countP_map]
  refine List.countP_congr fun m _ => ?_
  simp [hk]

/-- Connectives of both kinds are written with logical operators. -/
theorem count_logicalOperator (n : Node) :
    n.tokenKinds.count .logicalOperator = n.countKind .conjunction + n.countKind .disjunction := by
  unfold Node.tokenKinds Node.countKind
  induction n.preorder with
  | nil => rfl
  | cons m nodes ih =>
      rw [List.map_cons, List.map_cons, List.count_cons, List.count_cons, List.count_cons, ih]
      cases m.kind <;> simp [NodeKind.token] <;> omega

/-- Counting tokens of a kind is counting kinds. -/
theorem countKind_eq_count (k : TokenKind) (ts : List Token) :
    countKind k ts = (ts.map Token.kind).count k := by
  rw [countKind, List.count, List.countP_map]
  rfl

/-- Nothing in the tree of a filter is read twice, in another order or from nothing: its predicates
are among those of the text in the order of the text, and there are no more negations, connectives,
value paths and nodes at all than there are tokens for them. -/
theorem predicates_of_parseFilter {input : String} {n : Node}
    (h : parseFilter input = .ok (some n)) :
    ∃ tokens, tokenize .filter input = .ok tokens ∧
      n.predicates.Sublist (predicatesOf tokens) ∧
      n.countKind .negation ≤ countKind .negation tokens ∧
      n.countKind .conjunction + n.countKind .disjunction ≤ countKind .logicalOperator tokens ∧
      n.countKind .valuePath ≤ countKind .bracketOpen tokens ∧
      n.preorder.length ≤ tokens.length := by
  obtain ⟨ts, us, hscan, -, hderives⟩ := derives_of_parseFilter h
  have hts : ts <:+: ts ++ us := (List.prefix_append ts us).isInfix
  have hsubperm : n.tokenKinds.Subperm ((ts ++ us).map Token.kind) :=
    hderives.tokens_subperm.trans (hts.sublist.map Token.kind).subperm
  refine ⟨ts ++ us, tokenize_eq_ok_iff_tokensFrom.mpr hscan,
    hderives.predicates_sublist.trans (predicatesOf_sublist hts), ?_, ?_, ?_, ?_⟩
  · rw [countKind_eq_count, ← count_token fun k' => by cases k' <;> decide]
    exact hsubperm.count_le _
  · rw [countKind_eq_count, ← count_logicalOperator]
    exact hsubperm.count_le _
  · rw [countKind_eq_count, ← count_token fun k' => by cases k' <;> decide]
    exact hsubperm.count_le _
  · simpa [Node.tokenKinds] using hsubperm.length_le

/-- A group that ignores what follows its expression: of three predicates in the text, the first two
are in the tree. -/
theorem predicates_of_parseFilter_dropped :
    ∃ (n : Node) (tokens : List Token),
      parseFilter "(emails[type eq 1] and not (title pr)a eq 2)" = .ok (some n) ∧
      tokenize .filter "(emails[type eq 1] and not (title pr)a eq 2)" = .ok tokens ∧
      n.predicates = [⟨["type"], .eq, some (.integer 1)⟩, ⟨["title"], .pr, none⟩] ∧
      predicatesOf tokens = n.predicates ++ [⟨["a"], .eq, some (.integer 2)⟩] ∧
      n.predicates.Sublist (predicatesOf tokens) ∧
      n.preorder.length = 5 ∧ n.preorder.length ≤ tokens.length := by
  let n : Node := .connective .and
    [.valuePath (.ofSingle "emails")
      (.comparison (.make ⟨none, "emails", ["type"]⟩ .eq (some (.integer 1)))) none,
     .negation (.comparison (.present (.ofSingle "title")))]
  have hparse : parseFilter "(emails[type eq 1] and not (title pr)a eq 2)" = .ok (some n) := by
    decide +kernel
  have hpredicates :
      (tokenize .filter "(emails[type eq 1] and not (title pr)a eq 2)").map predicatesOf
        = .ok [⟨["type"], .eq, some (.integer 1)⟩, ⟨["title"], .pr, none⟩,
          ⟨["a"], .eq, some (.integer 2)⟩] := by
    decide +kernel
  obtain ⟨tokens, hscan, hsublist, -, -, -, hlength⟩ := predicates_of_parseFilter hparse
  rw [hscan] at hpredicates
  have hn : n.predicates = [⟨["type"], .eq, some (.integer 1)⟩, ⟨["title"], .pr, none⟩] := by
    decide
  refine ⟨n, tokens, hparse, hscan, hn, ?_, hsublist, by decide, hlength⟩
  rw [hn, Except.ok.inj hpredicates]
  rfl

end Scim
