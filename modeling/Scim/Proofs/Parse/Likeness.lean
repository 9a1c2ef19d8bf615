import Mathlib.Data.List.Forall2
import Scim.Proofs.Parse.Empty
import Scim.Proofs.Parse.PathGrammar

/-!
# `Scim.Proofs.Parse.Likeness`: tokens that read alike

The grammar looks at the kinds of tokens, at the texts of names, and at what operators and literals
are read as. It does not notice where they are and how they are spelled. `Token.ReadsLike` says that
two tokens agree in all that counts, and a derivation carries over from some tokens to others that
read like them, one by one.

The results follow the grammars, with one case for each of their rules:

* `Derives.of_readsLike`, for expressions.
* `StartsEmpty.of_readsLike`, for empty filters.
* `DerivesPath.of_readsLike`, for paths.

They rest on what is said about tokens only by their kinds, `Balanced` and `EndsBefore`, and on
`readLike_append`, which divides the other tokens where the rule divides the given ones.
-/

set_option autoImplicit false

namespace Scim

open List (forall₂_cons_left_iff forall₂_nil_left_iff)

/-- A token that the grammar cannot tell from another one. -/
structure Token.ReadsLike (t t' : Token) : Prop where
  kind_eq : t'.kind = t.kind
  text_eq : t.kind = .name ∨ t.kind = .subAttribute → t'.text = t.text
  operator : t.kind = .comparisonOperator → ∀ o, Operator.read t.text = .ok o →
    Operator.read t'.text = .ok o
  logicalOperator : t.kind = .logicalOperator → ∀ o, LogicalOperator.read t.text = .ok o →
    LogicalOperator.read t'.text = .ok o
  literal_eq : t'.literal? = t.literal?

/-- Tokens that read like others, one by one. -/
abbrev ReadLike : List Token → List Token → Prop := List.Forall₂ Token.ReadsLike

/-- Tokens that read like two lists in a row are two such lists in a row. -/
theorem readLike_append {ts us ts' : List Token} (h : ReadLike (ts ++ us) ts') :
    ∃ left right, ReadLike ts left ∧ ReadLike us right ∧ ts' = left ++ right := by
  induction ts generalizing ts' with
  | nil => exact ⟨[], ts', .nil, h, rfl⟩
  | cons t ts ih =>
      obtain ⟨t', _, ht, hrest, rfl⟩ := forall₂_cons_left_iff.mp h
      obtain ⟨left, right, hleft, hright, rfl⟩ := ih hrest
      exact ⟨t' :: left, right, .cons ht hleft, hright, rfl⟩

/-- A single token is read like by a single token. -/
theorem readLike_single {t : Token} {ts' : List Token} (h : ReadLike [t] ts') :
    ∃ t', t.ReadsLike t' ∧ ts' = [t'] := by
  obtain ⟨t', _, ht, hnil, rfl⟩ := forall₂_cons_left_iff.mp h
  obtain rfl := forall₂_nil_left_iff.mp hnil
  exact ⟨t', ht, rfl⟩

/-! ### Filters -/

/-- Parentheses match in tokens that read alike. -/
theorem Balanced.of_readsLike {ts ts' : List Token} (h : Balanced ts) (hlike : ReadLike ts ts') :
    Balanced ts' := by
  induction h generalizing ts' with
  | nil =>
      obtain rfl := forall₂_nil_left_iff.mp hlike
      exact .nil
  | plain hopen hclose hts ih =>
      obtain ⟨t', rest, ht, hrest, rfl⟩ := forall₂_cons_left_iff.mp hlike
      rw [← ht.kind_eq] at hopen hclose
      exact .plain hopen hclose (ih hrest)
  | enclosed hopen hbody hclose hts ihbody ihts =>
      obtain ⟨opening, _, hopening, hbehind, rfl⟩ := forall₂_cons_left_iff.mp hlike
      obtain ⟨body, _, hbody', hend, rfl⟩ := readLike_append hbehind
      obtain ⟨closing, rest, hclosing, hrest, rfl⟩ := forall₂_cons_left_iff.mp hend
      exact .enclosed (hopening.kind_eq.trans hopen) (ihbody hbody')
        (hclosing.kind_eq.trans hclose) (ihts hrest)

/-- Expressions end in front of tokens that read alike. -/
theorem EndsBefore.of_readsLike {ts ts' : List Token} (h : EndsBefore ts)
    (hlike : ReadLike ts ts') : EndsBefore ts' := by
  cases hlike with
  | nil => exact h
  | @cons t t' ts ts' ht hlike =>
      intro u hu
      obtain rfl : t' = u := by simpa using hu
      rw [ht.kind_eq]
      exact h t rfl

/-- What derives from some tokens derives from those that read like them. -/
theorem Derives.of_readsLike {nt : Nonterminal} {v : Bool} {ts ts' : List Token} {n : Node}
    (h : Derives nt v ts n) (hlike : ReadLike ts ts') : Derives nt v ts' n := by
  induction h generalizing ts' with
  | single h ih => exact .single (ih hlike)
  | joined hleft hword hread hright ihleft ihright =>
      obtain ⟨left, _, hleft', hbehind, rfl⟩ := readLike_append hlike
      obtain ⟨word, right, hw, hright', rfl⟩ := forall₂_cons_left_iff.mp hbehind
      exact .joined (ihleft hleft') (hw.kind_eq.trans hword) (hw.logicalOperator hword _ hread)
        (ihright hright')
  | enclosed hopen hbody hignored hmatch hclose ih =>
      obtain ⟨opening, _, hopening, hbehind, rfl⟩ := forall₂_cons_left_iff.mp hlike
      -- The parentheses have to match in the body and the ignored tokens together, so these are
      -- taken first.
      obtain ⟨_, _, hinner, hend, rfl⟩ := readLike_append hbehind
      obtain ⟨closing, hclosing, rfl⟩ := readLike_single hend
      have hmatch' := hmatch.of_readsLike hinner
      obtain ⟨body, ignored, hbody', hignored', rfl⟩ := readLike_append hinner
      exact .enclosed (hopening.kind_eq.trans hopen) (ih hbody')
        (hignored.of_readsLike hignored') hmatch' (hclosing.kind_eq.trans hclose)
  | group h ih => exact .group (ih hlike)
  | negation hword h ih =>
      obtain ⟨word, _, hw, hbehind, rfl⟩ := forall₂_cons_left_iff.mp hlike
      exact .negation (hw.kind_eq.trans hword) (ih hbehind)
  | present hname hword hread =>
      obtain ⟨name, _, hn, hbehind, rfl⟩ := forall₂_cons_left_iff.mp hlike
      obtain ⟨word, hw, rfl⟩ := readLike_single hbehind
      rw [← hn.text_eq (.inl hname)]
      exact .present (hn.kind_eq.trans hname) (hw.kind_eq.trans hword) (hw.operator hword _ hread)
  | comparison hname hword hread hoperator hliteral hvalue =>
      obtain ⟨name, _, hn, hbehind, rfl⟩ := forall₂_cons_left_iff.mp hlike
      obtain ⟨word, _, hw, hend, rfl⟩ := forall₂_cons_left_iff.mp hbehind
      obtain ⟨literal, hl, rfl⟩ := readLike_single hend
      rw [← hn.text_eq (.inl hname)]
      rw [← hl.kind_eq] at hliteral
      exact .comparison (hn.kind_eq.trans hname) (hw.kind_eq.trans hword)
        (hw.operator hword _ hread) hoperator hliteral (hl.literal_eq.trans hvalue)
  | valuePath hname hsingle hopen hbody hplain hclose ih =>
      obtain ⟨name, _, hn, hbehind, rfl⟩ := forall₂_cons_left_iff.mp hlike
      obtain ⟨opening, _, hopening, hinner, rfl⟩ := forall₂_cons_left_iff.mp hbehind
      obtain ⟨body, _, hbody', hend, rfl⟩ := readLike_append hinner
      obtain ⟨closing, hclosing, rfl⟩ := readLike_single hend
      rw [← hn.text_eq (.inl hname)] at hsingle ⊢
      exact .valuePath (hn.kind_eq.trans hname) hsingle (hopening.kind_eq.trans hopen)
        (ih hbody') hplain (hclosing.kind_eq.trans hclose)

/-- An opening reads like an opening. -/
theorem IsOpening.of_readsLike {ts ts' : List Token} (h : IsOpening ts)
    (hlike : ReadLike ts ts') : IsOpening ts' := by
  cases h with
  | group hopen =>
      obtain ⟨opening, hopening, rfl⟩ := readLike_single hlike
      exact .group (hopening.kind_eq.trans hopen)
  | negation hword hopen =>
      obtain ⟨word, _, hw, hbehind, rfl⟩ := forall₂_cons_left_iff.mp hlike
      obtain ⟨opening, hopening, rfl⟩ := readLike_single hbehind
      exact .negation (hw.kind_eq.trans hword) (hopening.kind_eq.trans hopen)

/-- Tokens that read like an empty filter are one. -/
theorem StartsEmpty.of_readsLike {ts ts' : List Token} (h : StartsEmpty ts)
    (hlike : ReadLike ts ts') : StartsEmpty ts' := by
  induction h generalizing ts' with
  | closed hopen hclose =>
      obtain ⟨opening, _, hopening, hbehind, rfl⟩ := readLike_append hlike
      obtain ⟨closing, _, hclosing, -, rfl⟩ := forall₂_cons_left_iff.mp hbehind
      exact .closed (hopen.of_readsLike hopening) (hclosing.kind_eq.trans hclose)
  | nested hopen hbody hmatch hclose ih =>
      obtain ⟨opening, _, hopening, hbehind, rfl⟩ := readLike_append hlike
      obtain ⟨body, _, hbody', hend, rfl⟩ := readLike_append hbehind
      obtain ⟨closing, _, hclosing, -, rfl⟩ := forall₂_cons_left_iff.mp hend
      exact .nested (hopen.of_readsLike hopening) (ih hbody') (hmatch.of_readsLike hbody')
        (hclosing.kind_eq.trans hclose)

/-! ### Paths -/

/-- What is a path stays one, and addresses the same, if its tokens are replaced by others that read
like them. -/
theorem DerivesPath.of_readsLike {ts ts' : List Token} {e : PathExpression}
    (h : DerivesPath ts e) (hlike : ReadLike ts ts') : DerivesPath ts' e := by
  cases h with
  | bare hname =>
      obtain ⟨name, hn, rfl⟩ := readLike_single hlike
      rw [← hn.text_eq (.inl hname)]
      exact .bare (hn.kind_eq.trans hname)
  | value hname h =>
      have h' := h.of_readsLike hlike
      obtain ⟨name, _, hn, -, rfl⟩ := forall₂_cons_left_iff.mp hlike
      exact .value (hn.kind_eq.trans hname) h'
  | subAttribute hname h hsub =>
      obtain ⟨_, _, hvalue, hend, rfl⟩ := readLike_append hlike
      obtain ⟨sub, hs, rfl⟩ := readLike_single hend
      have h' := h.of_readsLike hvalue
      obtain ⟨name, _, hn, -, rfl⟩ := forall₂_cons_left_iff.mp hvalue
      rw [← hs.text_eq (.inr hsub)]
      exact .subAttribute (hn.kind_eq.trans hname) h' (hs.kind_eq.trans hsub)

end Scim
