import Scim.Proofs.Parse.Grammar

/-!
# `Scim.Proofs.Parse.PathGrammar`: the grammar of PATCH paths

A path is a name, or a value path of the grammar of filters, with or without a sub-attribute behind
it. Unlike a filter it is made of all tokens of the scan. `DerivesPath` says this over lists of
tokens, and `parsePath_eq_ok_iff_derives` that the parser accepts exactly these paths.

A value path has to start with its name: between parentheses it is a filter, but no path. So a
derivation of a value path is only used where its first token is a name, and there it has one form
(`derives_valuePath_iff`).

The reader of paths takes one step after the other and is not recursive. Each step gets a lemma, and
the two directions of the result go through them in order:

* `reads_valuePath_iff_derives`, a collection and its predicate, from the grammar of expressions.
* `withSubAttribute_iff`, what may follow it, which is a sub-attribute or nothing.
* `derivesPath_of_parsePath`, from the parser to the grammar.
* `parsePath_of_derivesPath`, and back.
-/

set_option autoImplicit false

namespace Scim

open Attempt

/-- The grammar of paths, and what each of them addresses. -/
inductive DerivesPath : List Token → PathExpression → Prop where
  /-- An attribute. -/
  | bare {name : Token} (hname : name.kind = .name) :
    DerivesPath [name] (.attribute (.ofName name.text))
  /-- Members of a collection. -/
  | value {name : Token} {ts : List Token} {path : AttributePath} {predicate : Node}
    (hname : name.kind = .name)
    (h : Derives .primary false (name :: ts) (.valuePath path predicate none)) :
    DerivesPath (name :: ts) (.value (.make path predicate))
  /-- A sub-attribute of members of a collection. The token of the sub-attribute starts with a
  dot. -/
  | subAttribute {name sub : Token} {ts : List Token} {path : AttributePath} {predicate : Node}
    (hname : name.kind = .name)
    (h : Derives .primary false (name :: ts) (.valuePath path predicate none))
    (hsub : sub.kind = .subAttribute) :
    DerivesPath (name :: ts ++ [sub])
      (.value ((ValuePath.make path predicate).withSubAttribute
        (String.ofList sub.text.toList.tail)))

/-! ### What follows a value path -/

/-- A stream has no next token if all its tokens are consumed. -/
theorem hasNext_eq_false_iff {s : TokenStream} : s.hasNext = false ↔ s.rest = [] := by
  simp [TokenStream.hasNext]

/-- Nothing may be left behind a value path but a sub-attribute. -/
theorem withSubAttribute_iff {policy : Policy} {v w : ValuePath} {s : TokenStream} :
    (∃ t, (policy.operations.withSubAttribute v s).outcome = .ok (w, t) ∧ t.rest = []) ↔
      (s.rest = [] ∧ w = v) ∨ ∃ sub, s.rest = [sub] ∧ sub.kind = .subAttribute ∧
        w = v.withSubAttribute (String.ofList sub.text.toList.tail) := by
  unfold Operations.withSubAttribute
  constructor
  · rintro ⟨t, hread, ht⟩
    split at hread
    · obtain ⟨sub, hsub, hpair⟩ := outcome_bind_eq_ok_iff.mp hread
      obtain ⟨hrest, hkind⟩ := rest_of_takeToken hsub
      cases hpair
      rw [ht] at hrest
      exact .inr ⟨sub.value, hrest, by simpa using hkind, rfl⟩
    · cases hread
      exact .inl ⟨ht, rfl⟩
  · rintro (⟨hrest, rfl⟩ | ⟨sub, hrest, hkind, rfl⟩)
    · have hnext : s.isNext [.subAttribute] = false := by
        simp [TokenStream.isNext, TokenStream.peek?, hrest]
      rw [hnext]
      exact ⟨s, rfl, hrest⟩
    · obtain ⟨step, hstep, rfl, hafter⟩ :=
        takeToken_of_rest_eq hrest (by simp [hkind] : sub.kind ∈ [TokenKind.subAttribute])
      rw [isNext_of_rest_eq hrest, if_pos (by simp [hkind])]
      exact ⟨step.rest, outcome_bind_eq_ok_iff.mpr ⟨step, hstep, rfl⟩, hafter⟩

/-! ### Value paths -/

/-- The derivations of a value path that starts with its name. -/
theorem derives_valuePath_iff {name : Token} (hname : name.kind = .name) {ts : List Token}
    {path : AttributePath} {predicate : Node} :
    Derives .primary false (name :: ts) (.valuePath path predicate none) ↔
      ∃ opening body closing n, ts = opening :: (body ++ [closing]) ∧
        opening.kind = .bracketOpen ∧ Derives .expression true body n ∧
        closing.kind = .bracketClose ∧ n.Simple ∧ path = .ofName name.text ∧
        path.length = 1 ∧ predicate = n.under path := by
  constructor
  · intro h
    cases h with
    | group henclosed =>
        cases henclosed with
        | enclosed hopen => rw [hname] at hopen; contradiction
    | @valuePath _ opening closing body n _ hsingle hopen hbody hplain hclose =>
        refine ⟨opening, body, closing, n, rfl, hopen, hbody, hclose, ?_, rfl, hsingle, rfl⟩
        exact fun m hm => ⟨hbody.kind_ne_attributePath m hm, hplain m hm⟩
  · rintro ⟨opening, body, closing, n, rfl, hopen, hbody, hclose, hsimple, rfl, hsingle, rfl⟩
    exact .valuePath hname hsingle hopen hbody (fun m hm => (hsimple m hm).2) hclose

/-- Reading a value path behind its name follows the grammar. -/
theorem reads_valuePath_iff_derives {s : TokenStream} {name : Token}
    (hname : name.kind = .name) (hsingle : (AttributePath.ofName name.text).length = 1)
    {v : ValuePath} {us : List Token} :
    Reads ((Policy.slicing.parser.reading s).valuePath (.ofName name.text)) v us ↔
      ∃ ts, s.rest = ts ++ us ∧ v.subAttribute? = none ∧
        Derives .primary false (name :: ts) (.valuePath v.path v.predicate none) := by
  have hread : FollowsGrammar s fun t _ => Policy.slicing.expression t :=
    fun t ht v n us => reads_expression_iff
  rw [Policy.parser_reading, reads_valuePath_iff hread]
  constructor
  · rintro ⟨opening, body, closing, n, hrest, hopen, hbody, hclose, hsimple, rfl⟩
    refine ⟨opening :: (body ++ [closing]), by simpa using hrest, rfl, ?_⟩
    refine (derives_valuePath_iff hname).mpr ⟨opening, body, closing, n, rfl, ?_, hbody, ?_,
      hsimple, rfl, hsingle, rfl⟩
    · simpa using hopen
    · simpa using hclose
  · rintro ⟨ts, hrest, hsub, hderives⟩
    obtain ⟨path, predicate, sub?⟩ := v
    obtain rfl : sub? = none := hsub
    obtain ⟨opening, body, closing, n, rfl, hopen, hbody, hclose, hsimple, hpath, -, hpredicate⟩ :=
      (derives_valuePath_iff hname).mp hderives
    obtain rfl : path = .ofName name.text := hpath
    obtain rfl : predicate = n.under (.ofName name.text) := hpredicate
    exact ⟨opening, body, closing, n, by simpa using hrest, by simp [hopen], hbody,
      by simp [hclose], hsimple, rfl⟩

/-! ### Paths -/

/-- What the parser of paths accepts is a path of the grammar. The steps are taken apart in the
order of the reader, and a refusal is excluded at each of them. -/
theorem derivesPath_of_parsePath {input : String} {e : PathExpression}
    (h : parsePath input = .ok e) :
    ∃ ts, tokensFrom .path 0 input.toList = .ok ts ∧ DerivesPath ts e := by
  rw [parsePath_eq_slices] at h
  obtain ⟨tokens, htokens, hread⟩ := outcome_bind_eq_ok_iff.mp h
  refine ⟨_, tokensFrom_of_scan htokens, ?_⟩
  unfold Reading.path at hread
  split at hread
  · simp at hread
  obtain ⟨first, hfirst, hread⟩ := outcome_bind_eq_ok_iff.mp hread
  rw [Policy.parser_reading, Policy.reading_toOperations, Policy.operations_pathOf, pure_bind]
    at hread
  obtain ⟨hrest, hkind⟩ := rest_of_takeToken hfirst
  have hname : first.value.kind = .name := by simpa using hkind
  rw [hrest]
  split at hread
  · -- The name is all there is.
    next hnext =>
      have hnil : first.rest.rest = [] := hasNext_eq_false_iff.mp (by simpa using hnext)
      cases hread
      rw [hnil]
      exact .bare hname
  split at hread
  · simp at hread
  split at hread
  · simp at hread
  next hlength =>
  -- A bracket follows. There is always a first name, so not more than one means one.
  have hsingle : (AttributePath.ofName first.value.text).length = 1 :=
    Nat.le_antisymm (Nat.not_lt.mp hlength) (by simp [AttributePath.length, AttributePath.names])
  obtain ⟨step, hstep, hread⟩ := outcome_bind_eq_ok_iff.mp hread
  obtain ⟨⟨w, rest⟩, hsub, hread⟩ := outcome_bind_eq_ok_iff.mp hread
  dsimp only at hread
  split at hread
  · simp at hread
  next hnext =>
  have hnil : rest.rest = [] := hasNext_eq_false_iff.mp (by simpa using hnext)
  cases hread
  obtain ⟨ts, hts, hnone, hderives⟩ :=
    (reads_valuePath_iff_derives hname hsingle).mp ⟨step, hstep, rfl, rfl⟩
  have hmake : step.value = .make step.value.path step.value.predicate := by
    rw [ValuePath.make, ← hnone]
  rw [hts]
  rcases withSubAttribute_iff.mp ⟨rest, hsub, hnil⟩ with ⟨hafter, rfl⟩ | ⟨sub, hafter, hkind, rfl⟩
  · rw [hafter, List.append_nil, hmake]
    exact .value hname hderives
  · rw [hafter, hmake]
    exact .subAttribute hname hderives hkind

/-- A value path behind its name, and what may follow it, is read as the path it derives to. -/
theorem parsePath_of_derives {input : String} {name : Token} {ts us : List Token}
    {v w : ValuePath} (hscan : tokensFrom .path 0 input.toList = .ok (name :: ts ++ us))
    (hname : name.kind = .name) (hnone : v.subAttribute? = none)
    (hderives : Derives .primary false (name :: ts) (.valuePath v.path v.predicate none))
    (hsub : (us = [] ∧ w = v) ∨ ∃ sub, us = [sub] ∧ sub.kind = .subAttribute ∧
      w = v.withSubAttribute (String.ofList sub.text.toList.tail)) :
    parsePath input = .ok (.value w) := by
  obtain ⟨opening, body, closing, n, hts, hopen, -, -, -, hpath, hsingle, -⟩ :=
    (derives_valuePath_iff hname).mp hderives
  rw [hpath] at hsingle
  rw [parsePath_eq_slices]
  refine outcome_bind_eq_ok_iff.mpr ⟨_, outcome_scan hscan input, ?_⟩
  -- Each step of the reader is shown to succeed on the tokens that are left.
  have hrest : (TokenStream.make input (name :: ts ++ us)).rest = name :: (ts ++ us) := rfl
  obtain ⟨first, hfirst, hvalue, hafter⟩ :=
    takeToken_of_rest_eq hrest (by simp [hname] : name.kind ∈ [TokenKind.name])
  have hnext : first.rest.rest = opening :: (body ++ [closing] ++ us) := by
    rw [hafter, hts]
    rfl
  obtain ⟨step, hstep, rfl, hus⟩ :=
    (reads_valuePath_iff_derives hname hsingle).mpr ⟨ts, hafter, hnone, hderives⟩
  obtain ⟨t, hread, ht⟩ := withSubAttribute_iff.mpr (by rw [hus]; exact hsub)
  unfold Reading.path
  rw [isNext_of_rest_eq hrest, if_neg (by simp [hname])]
  refine outcome_bind_eq_ok_iff.mpr ⟨first, hfirst, ?_⟩
  rw [Policy.parser_reading, Policy.reading_toOperations, Policy.operations_pathOf, pure_bind,
    hvalue, if_neg (by simp [TokenStream.hasNext, hnext]), isNext_of_rest_eq hnext,
    if_neg (by simp [hopen]), if_neg (by simp [hsingle])]
  refine outcome_bind_eq_ok_iff.mpr ⟨step, hstep, ?_⟩
  refine outcome_bind_eq_ok_iff.mpr ⟨(w, t), hread, ?_⟩
  dsimp only
  rw [hasNext_eq_false_iff.mpr ht]
  rfl

/-- The parser of paths accepts every path of the grammar. -/
theorem parsePath_of_derivesPath {input : String} {e : PathExpression} {ts : List Token}
    (hscan : tokensFrom .path 0 input.toList = .ok ts) (h : DerivesPath ts e) :
    parsePath input = .ok e := by
  cases h with
  | @bare name hname =>
      rw [parsePath_eq_slices]
      refine outcome_bind_eq_ok_iff.mpr ⟨_, outcome_scan hscan input, ?_⟩
      have hrest : (TokenStream.make input [name]).rest = name :: [] := rfl
      obtain ⟨first, hfirst, hvalue, hafter⟩ :=
        takeToken_of_rest_eq hrest (by simp [hname] : name.kind ∈ [TokenKind.name])
      unfold Reading.path
      rw [isNext_of_rest_eq hrest, if_neg (by simp [hname])]
      refine outcome_bind_eq_ok_iff.mpr ⟨first, hfirst, ?_⟩
      rw [Policy.parser_reading, Policy.reading_toOperations, Policy.operations_pathOf, pure_bind,
        hvalue, hasNext_eq_false_iff.mpr hafter]
      rfl
  | @value name ts path predicate hname hderives =>
      rw [← List.append_nil (name :: ts)] at hscan
      exact parsePath_of_derives hscan hname rfl hderives (.inl ⟨rfl, rfl⟩)
  | subAttribute hname hderives hsub =>
      exact parsePath_of_derives hscan hname rfl hderives (.inr ⟨_, rfl, hsub, rfl⟩)

/-- The parser of paths accepts exactly the texts that scan to the tokens of a path. -/
theorem parsePath_eq_ok_iff_derives (input : String) (e : PathExpression) :
    parsePath input = .ok e ↔
      ∃ ts, tokensFrom .path 0 input.toList = .ok ts ∧ DerivesPath ts e := by
  constructor
  · exact derivesPath_of_parsePath
  · rintro ⟨ts, hscan, h⟩
    exact parsePath_of_derivesPath hscan h

end Scim
