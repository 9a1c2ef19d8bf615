import Scim.Proofs.Parse.Grammar

/-!
# `Scim.Proofs.Parse.Empty`: filters that are empty

A filter can be read without an error and still give no tree. `()` is such a filter, and so is
anything that starts with it: `() and title pr` is empty, although `title pr` is not. Since an empty
filter puts no condition on anything, it should be plain from a text whether it is one.

`StartsEmpty` is what the reader looks for, a group or negation of nothing or of something that
starts empty itself. `ReadsNothing` says of an attempt that it succeeds without a tree, and there is
one lemma `readsNothing_…_iff` for each rule of the grammar that can do so, as in
`Scim.Proofs.Parse.Grammar`. `readsNothing_expression_iff` closes the circle by induction on the
weight.

Seen from the start of the text, this is a row of openings and a closing parenthesis right behind
it (`startsEmpty_iff_openings`). The rest of the text matters only in that every opening is closed
somewhere. The two directions are

* `OpensAndCloses.startsEmpty`, by induction on the openings: the body of the first one starts with
  the others (`exists_body_of_closedIn`).
* `StartsEmpty.exists_openings`, by induction on what starts empty.

`parseFilter_eq_ok_none_iff` is the result.
-/

set_option autoImplicit false

namespace Scim

open Attempt

/-- What opens a group or a negation. -/
inductive IsOpening : List Token → Prop where
  /-- `(`. -/
  | group {opening : Token} (hopen : opening.kind = .parenOpen) : IsOpening [opening]
  /-- `not (`. -/
  | negation {word opening : Token} (hword : word.kind = .negation)
    (hopen : opening.kind = .parenOpen) : IsOpening [word, opening]

/-- Tokens that start with a group or negation of nothing, or of tokens that start so. -/
inductive StartsEmpty : List Token → Prop where
  | closed {opening rest : List Token} {closing : Token} (hopen : IsOpening opening)
    (hclose : closing.kind = .parenClose) : StartsEmpty (opening ++ closing :: rest)
  | nested {opening body rest : List Token} {closing : Token} (hopen : IsOpening opening)
    (hbody : StartsEmpty body) (hmatch : Balanced body) (hclose : closing.kind = .parenClose) :
    StartsEmpty (opening ++ (body ++ closing :: rest))

/-! ### What the readers make of it -/

/-- The same without the keyword of a negation, as it stands in front of a reader of groups. -/
def OpensEmpty (ts : List Token) : Prop :=
  ∃ opening body closing rest, ts = opening :: (body ++ closing :: rest) ∧
    opening.kind = .parenOpen ∧ Balanced body ∧ closing.kind = .parenClose ∧
    (body = [] ∨ StartsEmpty body)

/-- Tokens start empty if a group does, possibly behind the keyword of a negation. -/
theorem startsEmpty_iff_opensEmpty {ts : List Token} :
    StartsEmpty ts ↔
      OpensEmpty ts ∨ ∃ word us, ts = word :: us ∧ word.kind = .negation ∧ OpensEmpty us := by
  constructor
  · intro h
    cases h with
    | @closed opening rest closing hopen hclose =>
        cases hopen with
        | group hopen => exact .inl ⟨_, [], closing, rest, rfl, hopen, .nil, hclose, .inl rfl⟩
        | negation hword hopen =>
            exact .inr ⟨_, _, rfl, hword, _, [], closing, rest, rfl, hopen, .nil, hclose, .inl rfl⟩
    | @nested opening body rest closing hopen hbody hmatch hclose =>
        cases hopen with
        | group hopen =>
            exact .inl ⟨_, body, closing, rest, rfl, hopen, hmatch, hclose, .inr hbody⟩
        | negation hword hopen =>
            exact .inr ⟨_, _, rfl, hword, _, body, closing, rest, rfl, hopen, hmatch, hclose,
              .inr hbody⟩
  · rintro (⟨opening, body, closing, rest, rfl, hopen, hmatch, hclose, hbody⟩ |
      ⟨word, _, rfl, hword, opening, body, closing, rest, rfl, hopen, hmatch, hclose, hbody⟩)
    · rcases hbody with rfl | hbody
      · exact .closed (.group hopen) hclose
      · exact .nested (.group hopen) hbody hmatch hclose
    · rcases hbody with rfl | hbody
      · exact .closed (.negation hword hopen) hclose
      · exact .nested (.negation hword hopen) hbody hmatch hclose

section
variable {s : TokenStream} {α : Type}

/-- An attempt that succeeds without a node. -/
def ReadsNothing (a : Attempt (Step s (Option Node))) : Prop :=
  ∃ step, a.outcome = .ok step ∧ step.value = none

/-- A value that is there is none if there is no tree in it. -/
theorem readsNothing_pure_iff {step : Step s (Option Node)} :
    ReadsNothing (pure step) ↔ step.value = none := by
  simp [ReadsNothing]

/-- Failing is not reading nothing. -/
theorem not_readsNothing_fail {e : ParseError} : ¬ ReadsNothing (s := s) (.fail e) := by
  simp [ReadsNothing]

/-- After a first step, nothing is read if the second one reads nothing. -/
theorem readsNothing_bind_iff {a : Attempt α} {f : α → Attempt (Step s (Option Node))} :
    ReadsNothing (a >>= f) ↔ ∃ x, a.outcome = .ok x ∧ ReadsNothing (f x) := by
  simp only [ReadsNothing, outcome_bind_eq_ok_iff]
  grind

/-- A way to read expressions that gives nothing where the tokens start empty. -/
def SkipsEmpty (s : TokenStream) (read : Lighter Attempt s) : Prop :=
  ∀ t ht v, ReadsNothing (read t ht v) ↔ StartsEmpty t.rest

variable {read : Lighter Attempt s}

/-- A body gives nothing exactly if it starts empty. -/
theorem outcome_sliceBody_eq_none_iff (h : SkipsEmpty s read) (group : Group s) (v : Bool) :
    (sliceBody s read group v).outcome = .ok none ↔ StartsEmpty group.body := by
  refine Iff.trans ?_ (h (.make s.source group.body) group.body_lighter v)
  unfold sliceBody
  rw [outcome_bind_eq_ok_iff]
  simp [ReadsNothing]

/-- A group with nothing in it, or with something that starts empty, opens empty. -/
theorem takeGroup_empty_iff :
    (∃ group, (takeGroup s).outcome = .ok group ∧ (group.body = [] ∨ StartsEmpty group.body)) ↔
      OpensEmpty s.rest := by
  constructor
  · rintro ⟨group, -, hbody⟩
    obtain ⟨hbalanced, hclose⟩ := group.balanced
    exact ⟨group.opening, group.body, group.closing, group.rest.rest, group.front,
      group.opening_kind, hbalanced, hclose, hbody⟩
  · rintro ⟨opening, body, closing, rest, hrest, hopen, hbalanced, hclose, hbody⟩
    obtain ⟨group, hgroup, rfl, -⟩ := takeGroup_of_rest_eq hrest hopen hbalanced hclose
    exact ⟨group, hgroup, hbody⟩

/-- Parentheses give nothing exactly if they open empty. -/
theorem readsNothing_enclosed_iff (h : SkipsEmpty s read) (empty : Nat → Event) (v : Bool) :
    ReadsNothing (Policy.slicing.enclosed s read empty v) ↔ OpensEmpty s.rest := by
  rw [← takeGroup_empty_iff]
  unfold Policy.enclosed
  rw [readsNothing_bind_iff]
  refine exists_congr fun group => and_congr_right fun _ => ?_
  rw [← outcome_sliceBody_eq_none_iff h group v]
  split
  · next hempty => simp [readsNothing_bind_iff, readsNothing_pure_iff, hempty]
  · next hbody => simp [readsNothing_bind_iff, readsNothing_pure_iff, hbody, Policy.slicing]

/-- A negation gives nothing exactly if what is behind its keyword opens empty. -/
theorem readsNothing_negation_iff (h : SkipsEmpty s read) (v : Bool) :
    ReadsNothing ((Policy.slicing.reading s read).negation v) ↔
      ∃ word ts, s.rest = word :: ts ∧ word.kind = .negation ∧ OpensEmpty ts := by
  -- What comes behind the keyword is read like a group.
  have hbody : ∀ word : Step s Token,
      ReadsNothing (do
        let body ← (Policy.slicing.reading s read).enclosed .emptyNegation word.rest
          (Nat.le_of_lt word.lighter) v
        return word.andThen (body.map (Option.map Node.negation))) ↔ OpensEmpty word.rest.rest := by
    intro word
    have hskips : SkipsEmpty word.rest fun t ht => read t (Nat.lt_trans ht word.lighter) :=
      fun t _ v => h t _ v
    rw [← readsNothing_enclosed_iff hskips .emptyNegation v, readsNothing_bind_iff]
    refine exists_congr fun body => and_congr_right fun _ => ?_
    simp [readsNothing_pure_iff, Step.map, Step.andThen]
  unfold Reading.negation
  rw [readsNothing_bind_iff]
  constructor
  · rintro ⟨word, hword, hreads⟩
    obtain ⟨hrest, hkind⟩ := rest_of_takeToken hword
    exact ⟨word.value, word.rest.rest, hrest, by simpa using hkind, (hbody word).mp hreads⟩
  · rintro ⟨word, ts, hrest, hkind, hopens⟩
    obtain ⟨step, hstep, -, rfl⟩ :=
      takeToken_of_rest_eq hrest (by simp [hkind] : word.kind ∈ [TokenKind.negation])
    exact ⟨step, hstep, (hbody step).mpr hopens⟩

/-- An operand gives nothing exactly if the tokens start empty. What starts with a name never does.
-/
theorem readsNothing_primary_iff (h : SkipsEmpty s read) (v : Bool) :
    ReadsNothing ((Policy.slicing.reading s read).primary v) ↔ StartsEmpty s.rest := by
  -- What starts with a name is never empty, and nothing else is read at all.
  have hnamed : ¬ ReadsNothing (do
      let node ← (Policy.slicing.reading s read).named v
      return node.map some) := by
    simp [readsNothing_bind_iff, readsNothing_pure_iff, Step.map]
  rw [startsEmpty_iff_opensEmpty]
  unfold Reading.primary
  constructor
  · intro hreads
    split at hreads
    · exact .inl ((readsNothing_enclosed_iff h .emptyGroup false).mp hreads)
    · split at hreads
      · exact .inr ((readsNothing_negation_iff h v).mp hreads)
      · split at hreads
        · exact absurd hreads hnamed
        · exact absurd hreads not_readsNothing_fail
  · rintro (hopens | ⟨word, ts, hrest, hkind, hopens⟩)
    · obtain ⟨opening, body, closing, rest, hrest, hopen, -⟩ := id hopens
      rw [isNext_of_rest_eq hrest, if_pos (by simp [hopen])]
      exact (readsNothing_enclosed_iff h .emptyGroup false).mpr hopens
    · rw [isNext_of_rest_eq hrest, isNext_of_rest_eq hrest, if_neg (by simp [hkind]),
        if_pos (by simp [hkind])]
      exact (readsNothing_negation_iff h v).mpr ⟨word, ts, hrest, hkind, hopens⟩

end

/-- Reading an expression gives nothing exactly if the tokens start empty. -/
theorem readsNothing_expression_iff {s : TokenStream} {v : Bool} :
    ReadsNothing (Policy.slicing.expression s v) ↔ StartsEmpty s.rest := by
  induction hw : s.weight using Nat.strongRecOn generalizing s v with
  | ind w ih =>
      subst hw
      have hread : SkipsEmpty s fun t _ => Policy.slicing.expression t :=
        fun t ht v => ih t.weight ht rfl
      rw [← readsNothing_primary_iff hread v, Policy.expression, Reading.expression,
        readsNothing_bind_iff]
      refine exists_congr fun first => and_congr_right fun _ => ?_
      cases hvalue : first.value with
      | none => simp [readsNothing_pure_iff, hvalue]
      | some left =>
          -- An operand is there, so the expression is not empty, whatever follows.
          dsimp only
          split
          · simp [readsNothing_bind_iff, readsNothing_pure_iff, Step.map, Step.andThen]
          · simp [readsNothing_pure_iff, hvalue]

/-- A filter is empty exactly if the tokens of its scan start empty. -/
theorem parseFilter_eq_ok_none_iff_startsEmpty {input : String} :
    parseFilter input = .ok none ↔
      ∃ tokens, tokensFrom .filter 0 input.toList = .ok tokens ∧ StartsEmpty tokens := by
  rw [parseFilter_eq_slices, outcome_bind_eq_ok_iff]
  constructor
  · rintro ⟨tokens, hscan, hread⟩
    obtain ⟨step, hstep, hvalue⟩ := outcome_bind_eq_ok_iff.mp hread
    exact ⟨_, tokensFrom_of_scan hscan,
      readsNothing_expression_iff.mp ⟨step, hstep, by simpa using hvalue⟩⟩
  · rintro ⟨tokens, hscan, hempty⟩
    obtain ⟨step, hstep, hvalue⟩ := (readsNothing_expression_iff
      (s := .make input tokens) (v := false)).mpr hempty
    exact ⟨_, outcome_scan hscan input,
      outcome_bind_eq_ok_iff.mpr ⟨step, hstep, by simp [hvalue]⟩⟩

/-! ### Openings in a row -/

/-- There is no closing parenthesis in openings. -/
theorem kind_ne_parenClose_of_opening {openings : List (List Token)}
    (h : ∀ opening ∈ openings, IsOpening opening) :
    ∀ t ∈ openings.flatten, t.kind ≠ .parenClose := by
  intro t ht
  obtain ⟨opening, hmem, ht⟩ := List.mem_flatten.mp ht
  cases h opening hmem with
  | group hopen => simp_all
  | negation hword hopen =>
      simp only [List.mem_cons, List.not_mem_nil, or_false] at ht
      rcases ht with rfl | rfl <;> simp_all

/-- An opening ends in its parenthesis. -/
theorem IsOpening.exists_parenOpen {ts : List Token} (h : IsOpening ts) :
    ∃ before opening, ts = before ++ [opening] ∧ opening.kind = .parenOpen := by
  cases h with
  | group hopen => exact ⟨[], _, rfl, hopen⟩
  | negation hword hopen => exact ⟨[_], _, rfl, hopen⟩

/-- The tokens up to the parenthesis that closes the first of some openings hold the others and what
closes the last of them. -/
theorem exists_body_of_closedIn {openings : List (List Token)} {closing : Token}
    {rest : List Token} (hne : openings ≠ [])
    (hopenings : ∀ opening ∈ openings, IsOpening opening)
    (hclosed : ClosedIn (openings.flatten ++ closing :: rest)) :
    ∃ inner last after, rest = inner ++ last :: after ∧ last.kind = .parenClose ∧
      Balanced (openings.flatten ++ closing :: inner) := by
  obtain ⟨body, last, after, heq, hbody, hlast⟩ := hclosed
  have hplain := kind_ne_parenClose_of_opening hopenings
  -- The openings alone do not match: the first of them is closed by none of these tokens.
  have hunmatched : body ≠ openings.flatten := by
    rintro rfl
    obtain ⟨first, others, rfl⟩ := List.exists_cons_of_ne_nil hne
    obtain ⟨before, opening, hfirst, hopen⟩ :=
      (hopenings first List.mem_cons_self).exists_parenOpen
    have hsplit : (first :: others).flatten = before ++ opening :: others.flatten := by
      simp [hfirst]
    obtain ⟨_, close, _, hothers, -, hclose⟩ := hbody.closedIn hsplit hopen
    refine hplain close ?_ hclose
    rw [hsplit, hothers]
    simp
  rcases List.append_eq_append_iff.mp heq with ⟨inner, rfl, hrest⟩ | ⟨inner, hinner, hrest⟩
  · cases inner with
    | nil => exact absurd (List.append_nil _) hunmatched
    | cons c inner =>
        obtain ⟨rfl, rfl⟩ := List.cons.inj hrest
        exact ⟨inner, last, after, rfl, hlast, hbody⟩
  · cases inner with
    | nil => exact absurd (by simpa using hinner.symm) hunmatched
    | cons c inner =>
        obtain ⟨rfl, -⟩ := List.cons.inj hrest
        exact absurd hlast (hplain _ (by rw [hinner]; simp))

/-- Openings in a row and a closing parenthesis right behind them. Each parenthesis that is opened
is also closed. -/
structure OpensAndCloses (openings : List (List Token)) (closing : Token) (rest : List Token) :
    Prop where
  ne_nil : openings ≠ []
  isOpening : ∀ opening ∈ openings, IsOpening opening
  kind_closing : closing.kind = .parenClose
  closedIn : ∀ before opening after, openings.flatten = before ++ opening :: after →
    opening.kind = .parenOpen → ClosedIn (after ++ closing :: rest)

/-- Openings with a closing parenthesis right behind them start empty. -/
theorem OpensAndCloses.startsEmpty {openings : List (List Token)} {closing : Token}
    {rest : List Token} (h : OpensAndCloses openings closing rest) :
    StartsEmpty (openings.flatten ++ closing :: rest) := by
  induction openings generalizing rest with
  | nil => exact absurd rfl h.ne_nil
  | cons first others ih =>
      have hfirst := h.isOpening first List.mem_cons_self
      have hothers := fun o ho => h.isOpening o (List.mem_cons_of_mem first ho)
      by_cases hne : others = []
      · subst hne
        have hstart : StartsEmpty (first ++ closing :: rest) := .closed hfirst h.kind_closing
        simpa using hstart
      · -- The other openings are in the body of the first one, and so is what closes them.
        obtain ⟨before, opening, rfl, hopen⟩ := hfirst.exists_parenOpen
        obtain ⟨inner, last, after, rfl, hlast, hbody⟩ := exists_body_of_closedIn hne hothers
          (h.closedIn before opening others.flatten (by simp) hopen)
        have hinner : OpensAndCloses others closing inner := by
          refine ⟨hne, hothers, h.kind_closing, fun before opening behind hsplit hopen => ?_⟩
          have hflat : others.flatten ++ closing :: inner
              = before ++ opening :: (behind ++ closing :: inner) := by simp [hsplit]
          exact hbody.closedIn hflat hopen
        have hstart : StartsEmpty (before ++ [opening] ++
            (others.flatten ++ closing :: inner ++ last :: after)) :=
          .nested hfirst (ih hinner) hbody hlast
        simpa using hstart

/-- What starts empty is openings with a closing parenthesis right behind them. -/
theorem StartsEmpty.exists_openings {ts : List Token} (h : StartsEmpty ts) :
    ∃ openings closing rest, ts = openings.flatten ++ closing :: rest ∧
      OpensAndCloses openings closing rest := by
  -- The parenthesis of an opening is closed by what stands behind the body.
  have hlast : ∀ {ts before after : List Token} {opening : Token}, IsOpening ts →
      ts = before ++ opening :: after → opening.kind = .parenOpen → after = [] := by
    intro ts before after opening hts heq hopen
    cases hts with
    | group hgroup => cases before <;> simp_all
    | negation hword hgroup =>
        match before with
        | [] => simp_all
        | [_] => simp_all
        | _ :: _ :: _ => simp at heq
  induction h with
  | @closed opening rest closing hopen hclose =>
      refine ⟨[opening], closing, rest, by simp, by simp, by simpa using hopen, hclose, ?_⟩
      intro before t after hsplit ht
      obtain rfl := hlast hopen (by simpa using hsplit) ht
      exact ⟨[], closing, rest, rfl, .nil, hclose⟩
  | @nested opening body rest last hopen hbody hmatch hclose ih =>
      obtain ⟨openings, closing, inner, rfl, hih⟩ := ih
      refine ⟨opening :: openings, closing, inner ++ last :: rest, by simp, by simp,
        List.forall_mem_cons.mpr ⟨hopen, hih.isOpening⟩, hih.kind_closing, ?_⟩
      intro before t after hsplit ht
      -- Either the parenthesis is the new one, or it is closed in the body already.
      rw [List.flatten_cons] at hsplit
      rcases List.append_eq_append_iff.mp hsplit with ⟨between, rfl, hrest⟩ | ⟨between, heq, hrest⟩
      · have hclosed := hih.closedIn between t after hrest ht
        simpa using hclosed.append (last :: rest)
      · cases between with
        | nil =>
            have hclosed := hih.closedIn [] t after (by simpa using hrest.symm) ht
            simpa using hclosed.append (last :: rest)
        | cons c between =>
            obtain ⟨rfl, rfl⟩ := List.cons.inj hrest
            obtain rfl := hlast hopen heq ht
            exact ⟨openings.flatten ++ closing :: inner, last, rest, by simp, hmatch, hclose⟩

/-- Both ways to say it agree. -/
theorem startsEmpty_iff_openings {ts : List Token} :
    StartsEmpty ts ↔ ∃ openings closing rest, ts = openings.flatten ++ closing :: rest ∧
      OpensAndCloses openings closing rest := by
  constructor
  · exact StartsEmpty.exists_openings
  · rintro ⟨openings, closing, rest, rfl, h⟩
    exact h.startsEmpty

/-- A filter is empty exactly if its text scans to one or more openings, each of them `(` or
`not (`, with a closing parenthesis right behind them, and if every parenthesis of these openings is
closed by some token of the scan. -/
theorem parseFilter_eq_ok_none_iff (input : String) :
    parseFilter input = .ok none ↔
      ∃ tokens, tokensFrom .filter 0 input.toList = .ok tokens ∧
        ∃ (openings : List (List Token)) (closing : Token) (rest : List Token),
          tokens = openings.flatten ++ closing :: rest ∧ openings ≠ [] ∧
          (∀ opening ∈ openings, IsOpening opening) ∧ closing.kind = .parenClose ∧
          ∀ before opening after, openings.flatten = before ++ opening :: after →
            opening.kind = .parenOpen → ClosedIn (after ++ closing :: rest) := by
  rw [parseFilter_eq_ok_none_iff_startsEmpty]
  refine exists_congr fun tokens => and_congr_right fun _ => startsEmpty_iff_openings.trans ?_
  constructor
  · rintro ⟨openings, closing, rest, htokens, h⟩
    exact ⟨openings, closing, rest, htokens, h.ne_nil, h.isOpening, h.kind_closing, h.closedIn⟩
  · rintro ⟨openings, closing, rest, htokens, hne, hopenings, hclosing, hclosed⟩
    exact ⟨openings, closing, rest, htokens, hne, hopenings, hclosing, hclosed⟩

example : parseFilter "not ((() or x pr)) and title pr" = .ok none := by decide +kernel

end Scim
