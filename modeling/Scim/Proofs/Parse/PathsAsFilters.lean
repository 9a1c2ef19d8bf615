import Scim.Proofs.Parse.PathGrammar
import Scim.Proofs.Token.SubAttribute

/-!
# `Scim.Proofs.Parse.PathsAsFilters`: value paths in both parsers

A path and a filter are scanned in different modes, a filter may go on behind a value path, and a
path may have a sub-attribute there. Still a value path is the same in both. The tokens of a value
path end in a bracket, up to which the two scans agree (`Scans.reclose`), and they derive from the
same grammar. So a value path can be carried over from one parser to the other:

* `parseFilter_of_derives_valuePath`, from the scan of a path to a filter.
* `parsePath_of_derives_valuePath`, from the scan of a filter to a path.
* `parsePath_of_derives_subAttribute`, the same with a sub-attribute put behind it.

A filter is more than that, however. It may start with a value path and go on, or leave tokens at
its end. `derives_valuePath_of_expression` says that neither is so if the tree is a value path, the
first token is a name and all tokens were read.

`parsePath_agrees_with_parseFilter` says for both directions what this comes to for whole texts.
-/

set_option autoImplicit false

namespace Scim

open Attempt

/-! ### One value path, two scans -/

section
variable {name : Token} {ts : List Token} {path : AttributePath} {predicate : Node}
  (hname : name.kind = .name)
  (hderives : Derives .primary false (name :: ts) (.valuePath path predicate none))

include hname hderives

/-- The tokens of a value path end in its closing bracket. -/
theorem exists_closing_of_derives :
    ∃ before closing, name :: ts = before ++ [closing] ∧ closing.kind = .bracketClose := by
  obtain ⟨opening, body, closing, -, rfl, -, -, hclose, -⟩ :=
    (derives_valuePath_iff hname).mp hderives
  exact ⟨name :: opening :: body, closing, rfl, hclose⟩

/-- So they are found again in either mode, and whatever comes behind. -/
theorem scans_valuePath {mode : Mode} {cs rest : List Char}
    (hscan : Scans mode 0 cs (name :: ts) rest) (mode' : Mode) (more : List Char) :
    Scans mode' 0 (Token.charsOf (name :: ts) ++ more) (name :: ts) more := by
  obtain ⟨before, closing, hts, hclose⟩ := exists_closing_of_derives hname hderives
  rw [hts] at hscan ⊢
  exact hscan.reclose hclose mode' more

/-- Up to its bracket, a value path is a filter. -/
theorem parseFilter_of_derives_valuePath {mode : Mode} {cs rest : List Char}
    (hscan : Scans mode 0 cs (name :: ts) rest) :
    parseFilter (String.ofList (Token.charsOf (name :: ts)))
      = .ok (some (.valuePath path predicate none)) := by
  have hfilter := scans_valuePath hname hderives hscan .filter []
  rw [List.append_nil, ← tokensFrom_eq_ok_iff, ← List.append_nil (name :: ts)] at hfilter
  have hends : EndsBefore [] := by simp [EndsBefore]
  refine parseFilter_of_derives ?_ hends (.single hderives)
  rw [String.toList_ofList]
  simpa using hfilter

/-- A value path that is all of a filter is a path. -/
theorem parsePath_of_derives_valuePath {s : String}
    (hscan : Scans .filter 0 s.toList (name :: ts) []) :
    parsePath s = .ok (.value (.make path predicate)) := by
  have hpath := scans_valuePath hname hderives hscan .path []
  have hchars := hscan.charsOf_append
  rw [List.append_nil] at hpath hchars
  rw [hchars, ← tokensFrom_eq_ok_iff] at hpath
  exact parsePath_of_derivesPath hpath (.value hname hderives)

/-- And with a sub-attribute behind it, it is the path of that sub-attribute. -/
theorem parsePath_of_derives_subAttribute {s : String}
    (hscan : Scans .filter 0 s.toList (name :: ts) []) {x : String} (hx : IsSubAttribute x) :
    parsePath (s ++ "." ++ x)
      = .ok (.value ((ValuePath.make path predicate).withSubAttribute x)) := by
  have hpath := scans_valuePath hname hderives hscan .path ('.' :: x.toList)
  have hchars := hscan.charsOf_append
  rw [List.append_nil] at hchars
  rw [hchars] at hpath
  have hsub : Scans .path (0 + String.utf8Len (Token.charsOf (name :: ts))) ('.' :: x.toList)
      [⟨.subAttribute, String.ofList ('.' :: x.toList), _⟩] [] :=
    .step hx.lexeme? (.done _ [])
  have htext : (s ++ "." ++ x).toList = s.toList ++ '.' :: x.toList := by simp
  have hall := hpath.append rfl hsub
  rw [← htext, ← tokensFrom_eq_ok_iff] at hall
  have hparse := parsePath_of_derivesPath hall (.subAttribute hname hderives rfl)
  rwa [String.toList_ofList, List.tail_cons, String.ofList_toList] at hparse

end

/-! ### Filters that are read to their end -/

/-- A filter is read from the tokens of its scan. -/
theorem parseFilter_eq_of_reads {input : String} {tokens : List Token}
    {step : Step (.make input tokens) (Option Node)}
    (hscan : tokensFrom .filter 0 input.toList = .ok tokens)
    (hread : ((Policy.rescanning .filter).expression (.make input tokens) false).outcome
      = .ok step) :
    parseFilter input = .ok step.value := by
  rw [outcome_expression_eq_slices (scanned_of_tokensFrom hscan)] at hread
  rw [parseFilter_eq_slices]
  refine outcome_bind_eq_ok_iff.mpr ⟨_, outcome_scan hscan input, ?_⟩
  exact outcome_bind_eq_ok_iff.mpr ⟨step, hread, rfl⟩

/-- If nothing is left, all tokens are in the derivation. -/
theorem derives_of_reads {input : String} {tokens : List Token}
    {step : Step (.make input tokens) (Option Node)} {n : Node}
    (hscan : tokensFrom .filter 0 input.toList = .ok tokens)
    (hread : ((Policy.rescanning .filter).expression (.make input tokens) false).outcome = .ok step)
    (hvalue : step.value = some n) (hend : step.rest.hasNext = false) :
    Derives .expression false tokens n := by
  rw [outcome_expression_eq_slices (scanned_of_tokensFrom hscan)] at hread
  obtain ⟨ts, hrest, -, hderives⟩ := reads_expression_iff.mp
    ⟨step, hread, hvalue, hasNext_eq_false_iff.mp hend⟩
  rw [List.append_nil] at hrest
  obtain rfl : tokens = ts := hrest
  exact hderives

/-- An expression that is a value path and starts with a name is nothing else than that. -/
theorem derives_valuePath_of_expression {name : Token} (hname : name.kind = .name)
    {ts : List Token} {v : ValuePath} (h : Derives .expression false (name :: ts) v.toNode) :
    v.subAttribute? = none ∧
      Derives .primary false (name :: ts) (.valuePath v.path v.predicate none) := by
  obtain ⟨path, predicate, subAttribute?⟩ := v
  generalize hts : name :: ts = tokens at h
  cases h with
  | single hprimary =>
      cases hprimary with
      | group henclosed =>
          -- A group starts with a parenthesis.
          cases henclosed with
          | enclosed hopen =>
              rw [List.cons.injEq] at hts
              rw [← hts.1, hname] at hopen
              contradiction
      | valuePath hname hsingle hopen hbody hplain hclose =>
          exact ⟨rfl, .valuePath hname hsingle hopen hbody hplain hclose⟩

/-! ### Whole texts -/

/-- The only token of a text is all of the text. -/
theorem text_eq_of_tokensFrom_single {mode : Mode} {s : String} {t : Token}
    (h : tokensFrom mode 0 s.toList = .ok [t]) : t.text = s := by
  have hchars := (tokensFrom_eq_ok_iff.mp h).charsOf_append
  apply String.toList_injective
  simpa using hchars

/-- A path is an attribute exactly if its text is a single name. -/
theorem parsePath_eq_attribute_iff (s : String) (p : AttributePath) :
    parsePath s = .ok (.attribute p) ↔
      (∃ t, tokensFrom .path 0 s.toList = .ok [t] ∧ t.kind = .name) ∧ p = .ofName s := by
  constructor
  · intro h
    obtain ⟨ts, hscan, hderives⟩ := derivesPath_of_parsePath h
    cases hderives with
    | @bare t hkind =>
        rw [text_eq_of_tokensFrom_single hscan]
        exact ⟨⟨t, hscan, hkind⟩, rfl⟩
  · rintro ⟨⟨t, hscan, hkind⟩, rfl⟩
    have hparse := parsePath_of_derivesPath hscan (.bare hkind)
    rwa [text_eq_of_tokensFrom_single hscan] at hparse

/-- A path without a sub-attribute is a filter of the same tree. -/
theorem parseFilter_of_parsePath {s : String} {v : ValuePath}
    (h : parsePath s = .ok (.value v)) (hnone : v.subAttribute? = none) :
    parseFilter s = .ok (some v.toNode) := by
  obtain ⟨ts, hscan, hderives⟩ := derivesPath_of_parsePath h
  cases hderives with
  | @value name ts path predicate hname hderives =>
      have hscan := tokensFrom_eq_ok_iff.mp hscan
      have hfilter := parseFilter_of_derives_valuePath hname hderives hscan
      have hchars := hscan.charsOf_append
      rw [List.append_nil] at hchars
      rwa [hchars, String.ofList_toList] at hfilter
  | subAttribute hname hderives hsub => exact absurd hnone (by simp [ValuePath.withSubAttribute])

/-- The value path in front of a sub-attribute is a filter. -/
theorem exists_filter_of_parsePath {s x : String} {v : ValuePath}
    (h : parsePath s = .ok (.value v)) (hx : v.subAttribute? = some x) :
    ∃ (s' : String) (v' : ValuePath), s = s' ++ "." ++ x ∧
      parseFilter s' = .ok (some v'.toNode) ∧ v = v'.withSubAttribute x := by
  obtain ⟨tokens, hscan, hderives⟩ := derivesPath_of_parsePath h
  cases hderives with
  | value hname hderives => exact absurd hx (by simp [ValuePath.make])
  | @subAttribute name sub ts path predicate hname hderives hsub =>
      obtain ⟨mid, hts, hlast⟩ := (tokensFrom_eq_ok_iff.mp hscan).of_append
      have hfilter := parseFilter_of_derives_valuePath hname hderives hts
      cases hlast with
      | @step _ _ m rest _ _ _ hlex hend =>
          obtain rfl : TokenKind.subAttribute = _ := hsub.symm
          -- The token is the dot and the sub-attribute, and all that is left of the text.
          obtain ⟨rfl, y, rfl⟩ := lexeme?_eq_subAttribute hlex
          have hmid := (lexeme?_splits hlex).1
          rw [String.toList_ofList, List.tail_cons] at hx ⊢
          obtain rfl : String.ofList y = x := Option.some.inj hx
          refine ⟨_, .make path predicate, ?_, hfilter, rfl⟩
          apply String.toList_injective
          rw [← hts.charsOf_append, ← hmid]
          simp

/-- A filter that is a value path, starts with its name and is read to its end is a path, and so is
the filter with any sub-attribute behind it. -/
theorem parsePath_of_parseFilter {s : String} {v : ValuePath} {name : Token} {ts : List Token}
    {step : Step (.make s (name :: ts)) (Option Node)}
    (hscan : tokensFrom .filter 0 s.toList = .ok (name :: ts)) (hname : name.kind = .name)
    (hparse : parseFilter s = .ok (some v.toNode))
    (hread : ((Policy.rescanning .filter).expression (.make s (name :: ts)) false).outcome
      = .ok step)
    (hend : step.rest.hasNext = false) :
    parsePath s = .ok (.value v) ∧
      ∀ x, IsSubAttribute x → parsePath (s ++ "." ++ x) = .ok (.value (v.withSubAttribute x)) := by
  have hvalue : step.value = some v.toNode := by
    rw [parseFilter_eq_of_reads hscan hread] at hparse
    exact Except.ok.inj hparse
  obtain ⟨hnone, hderives⟩ :=
    derives_valuePath_of_expression hname (derives_of_reads hscan hread hvalue hend)
  have hmake : v = .make v.path v.predicate := by rw [ValuePath.make, ← hnone]
  have hscan := tokensFrom_eq_ok_iff.mp hscan
  rw [hmake]
  exact ⟨parsePath_of_derives_valuePath hname hderives hscan,
    fun x hx => parsePath_of_derives_subAttribute hname hderives hscan hx⟩

/-- What a path can be, and what it is as a filter.

1. A path is an attribute exactly if it is scanned as a single name.
2. A path that is a value path is a filter of the same tree.
3. With a sub-attribute behind it, it is one up to the dot.
4. The other way round, a filter that starts with a name, is a value path and is read to its last
   token is a path, and any sub-attribute may be put behind it. -/
theorem parsePath_agrees_with_parseFilter :
    (∀ (s : String) (p : AttributePath), parsePath s = .ok (.attribute p) ↔
      (∃ t, tokensFrom .path 0 s.toList = .ok [t] ∧ t.kind = .name) ∧ p = .ofName s) ∧
    (∀ (s : String) (v : ValuePath), parsePath s = .ok (.value v) → v.subAttribute? = none →
      parseFilter s = .ok (some v.toNode)) ∧
    (∀ (s x : String) (v : ValuePath), parsePath s = .ok (.value v) → v.subAttribute? = some x →
      ∃ (s' : String) (v' : ValuePath), s = s' ++ "." ++ x ∧
        parseFilter s' = .ok (some v'.toNode) ∧ v = v'.withSubAttribute x) ∧
    ∀ (s : String) (v : ValuePath) (name : Token) (ts : List Token)
      (step : Step (.make s (name :: ts)) (Option Node)),
      tokensFrom .filter 0 s.toList = .ok (name :: ts) → name.kind = .name →
      parseFilter s = .ok (some v.toNode) →
      ((Policy.rescanning .filter).expression (.make s (name :: ts)) false).outcome = .ok step →
      step.rest.hasNext = false →
      parsePath s = .ok (.value v) ∧
        ∀ x, IsSubAttribute x → parsePath (s ++ "." ++ x) = .ok (.value (v.withSubAttribute x)) :=
  ⟨parsePath_eq_attribute_iff, fun _ _ => parseFilter_of_parsePath,
    fun _ _ _ => exists_filter_of_parsePath, fun _ _ _ _ _ => parsePath_of_parseFilter⟩

/-- A value path with a schema, a group and a quoted bracket, as a filter, as a path, and with a
sub-attribute. -/
theorem parsePath_agrees_with_parseFilter_quoted :
    parsePath "name.first" = .ok (.attribute ⟨none, "name", ["first"]⟩) ∧
    ∃ v : ValuePath, v.path = ⟨some "urn:x", "a", []⟩ ∧
      parseFilter "urn:x:a[(b eq \"]\" or c pr)]" = .ok (some v.toNode) ∧
      parsePath "urn:x:a[(b eq \"]\" or c pr)]" = .ok (.value v) ∧
      parsePath "urn:x:a[(b eq \"]\" or c pr)].v-1" = .ok (.value (v.withSubAttribute "v-1")) ∧
      ∃ (s' : String) (v' : ValuePath), "urn:x:a[(b eq \"]\" or c pr)].v-1" = s' ++ "." ++ "v-1" ∧
        parseFilter s' = .ok (some v'.toNode) ∧
        v.withSubAttribute "v-1" = v'.withSubAttribute "v-1" := by
  obtain ⟨hattribute, hvalue, hsub, hfilter⟩ := parsePath_agrees_with_parseFilter
  let s := "urn:x:a[(b eq \"]\" or c pr)]"
  let v : ValuePath := ⟨⟨some "urn:x", "a", []⟩, .connective .or [
    .comparison (.make ⟨some "urn:x", "a", ["b"]⟩ .eq (some (.string "]"))),
    .comparison (.present ⟨some "urn:x", "a", ["c"]⟩)], none⟩
  let name : Token := ⟨.name, "urn:x:a", 0⟩
  let ts : List Token := [⟨.bracketOpen, "[", 7⟩, ⟨.parenOpen, "(", 8⟩, ⟨.name, "b", 9⟩,
    ⟨.comparisonOperator, " eq ", 10⟩, ⟨.string, "\"]\"", 14⟩, ⟨.logicalOperator, " or ", 17⟩,
    ⟨.name, "c", 21⟩, ⟨.comparisonOperator, " pr", 22⟩, ⟨.parenClose, ")", 25⟩,
    ⟨.bracketClose, "]", 26⟩]
  have hscan : tokensFrom .filter 0 s.toList = .ok (name :: ts) := by decide +kernel
  have hparse : parseFilter s = .ok (some v.toNode) := by decide +kernel
  have hleft : ((Policy.rescanning .filter).expression (.make s (name :: ts)) false).outcome.map
      (fun step => step.rest.hasNext) = .ok false := by
    decide +kernel
  cases hread : ((Policy.rescanning .filter).expression (.make s (name :: ts)) false).outcome with
  | error e =>
      rw [hread] at hleft
      contradiction
  | ok step =>
      rw [hread] at hleft
      obtain ⟨hpath, hnames⟩ :=
        hfilter s v name ts step hscan rfl hparse hread (Except.ok.inj hleft)
      have hwith := hnames "v-1" (by decide)
      refine ⟨(hattribute _ _).mpr ⟨⟨⟨.name, "name.first", 0⟩, by decide +kernel, rfl⟩, by decide⟩,
        v, rfl, hvalue s v hpath rfl, hpath, hwith, ?_⟩
      exact hsub _ "v-1" _ hwith rfl

end Scim
