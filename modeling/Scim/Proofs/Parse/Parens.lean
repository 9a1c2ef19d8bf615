import Mathlib.Data.List.Infix
import Scim.Proofs.Parse.Bodies

/-!
# `Scim.Proofs.Parse.Parens`: parentheses that match

The reader finds the end of a group by counting. `Balanced` says without counting when parentheses
match: what is in front is no parenthesis, or two of them with matching tokens between, and what is
behind matches. `Closes` is the same with some parentheses still open, which is what the search
looks like from the inside, and `ClosedIn` says that a parenthesis in front of some tokens is closed
by one of them.

* `closes_of_splitAtClosing`: what the search stops behind is such a row of tokens.
* `splitAtClosing_append`: the other way round, the search passes over tokens that match.
* `splitAtClosing_eq_some_iff`: so it stops behind the first tokens that are balanced, at a closing
  parenthesis.
* `Balanced.closedIn`: where parentheses match, each of them is closed.

`ParensMatch` is the other way to say it: never are more closed than opened, and in the end as many.
It can be decided by counting, and both say the same (`balanced_iff_parensMatch`). The step from
counts to `Closes` is `closes_of_counts`, which goes over the tokens with the number that is open in
front of them.
-/

set_option autoImplicit false

namespace Scim

/-- Tokens whose parentheses match. -/
inductive Balanced : List Token → Prop where
  | nil : Balanced []
  | plain {t : Token} {ts : List Token} (hopen : t.kind ≠ .parenOpen)
    (hclose : t.kind ≠ .parenClose) (hts : Balanced ts) : Balanced (t :: ts)
  | enclosed {opening closing : Token} {body ts : List Token} (hopen : opening.kind = .parenOpen)
    (hbody : Balanced body) (hclose : closing.kind = .parenClose) (hts : Balanced ts) :
    Balanced (opening :: (body ++ closing :: ts))

/-- Tokens whose parentheses match but for so many more closing ones. -/
def Closes : Nat → List Token → Prop
  | 0, ts => Balanced ts
  | depth + 1, ts =>
    ∃ body closing rest, ts = body ++ closing :: rest ∧ Balanced body ∧
      closing.kind = .parenClose ∧ Closes depth rest

/-- A token that is no parenthesis may stand anywhere. -/
theorem Closes.plain {depth : Nat} {t : Token} {ts : List Token} (hopen : t.kind ≠ .parenOpen)
    (hclose : t.kind ≠ .parenClose) (h : Closes depth ts) : Closes depth (t :: ts) := by
  cases depth with
  | zero => exact Balanced.plain hopen hclose h
  | succ depth =>
      obtain ⟨body, closing, rest, rfl, hbody, hclosing, hrest⟩ := h
      exact ⟨t :: body, closing, rest, rfl, .plain hopen hclose hbody, hclosing, hrest⟩

/-- An opening parenthesis is closed further on, in front of the others. -/
theorem Closes.opening {depth : Nat} {t : Token} {ts : List Token} (hopen : t.kind = .parenOpen)
    (h : Closes (depth + 1) ts) : Closes depth (t :: ts) := by
  obtain ⟨body, closing, rest, rfl, hbody, hclosing, hrest⟩ := h
  cases depth with
  | zero => exact Balanced.enclosed hopen hbody hclosing hrest
  | succ depth =>
      -- The first of the missing parentheses is that of the new one.
      obtain ⟨body', closing', rest', rfl, hbody', hclosing', hrest'⟩ := hrest
      refine ⟨t :: (body ++ closing :: body'), closing', rest', by simp, ?_, hclosing', hrest'⟩
      exact .enclosed hopen hbody hclosing hbody'

/-- The search for a closing parenthesis stops behind tokens that leave so many open. -/
theorem closes_of_splitAtClosing {depth : Nat} {ts body rest : List Token} {closing : Token}
    (h : splitAtClosing depth ts = some (body, closing, rest)) : Closes depth body := by
  -- One case for each way the search can go on, with the depth it goes on at.
  induction ts generalizing depth body with
  | nil => simp [splitAtClosing] at h
  | cons t ts ih =>
      simp only [splitAtClosing] at h
      split at h
      · -- The parenthesis that was looked for.
        simp only [Option.some.injEq, Prod.mk.injEq] at h
        obtain ⟨rfl, -, -⟩ := h
        exact Balanced.nil
      all_goals simp only [Option.map_eq_some_iff, Prod.mk.injEq, Prod.exists] at h
      · next hclose =>
          obtain ⟨body', _, _, hrec, rfl, rfl, rfl⟩ := h
          exact ⟨[], t, body', rfl, .nil, hclose, ih hrec⟩
      · next hopen =>
          obtain ⟨body', _, _, hrec, rfl, rfl, rfl⟩ := h
          exact (ih hrec).opening hopen
      · next depth _ _ hopen hclose hclose' =>
          obtain ⟨body', _, _, hrec, rfl, rfl, rfl⟩ := h
          refine (ih hrec).plain hopen fun hkind => ?_
          cases depth with
          | zero => exact hclose hkind rfl
          | succ depth => exact hclose' depth hkind rfl

/-- The search passes over a token that is no parenthesis. -/
theorem splitAtClosing_plain {t : Token} (hopen : t.kind ≠ .parenOpen)
    (hclose : t.kind ≠ .parenClose) (depth : Nat) (ts : List Token) :
    splitAtClosing depth (t :: ts)
      = (splitAtClosing depth ts).map fun (b, closing, rest) => (t :: b, closing, rest) := by
  cases hkind : t.kind <;> simp_all [splitAtClosing]

/-- The search for a closing parenthesis passes over matching ones. -/
theorem splitAtClosing_append {body : List Token} (h : Balanced body) (depth : Nat)
    (us : List Token) :
    splitAtClosing depth (body ++ us)
      = (splitAtClosing depth us).map fun (b, closing, rest) => (body ++ b, closing, rest) := by
  induction h generalizing depth us with
  | nil => simp
  | @plain t ts hopen hclose hts ih =>
      rw [List.cons_append, splitAtClosing_plain hopen hclose, ih, Option.map_map]
      rfl
  | @enclosed opening closing body ts hopen hbody hclose hts ihbody ihts =>
      -- One level down over the body, and up again at its closing parenthesis.
      simp only [List.cons_append, List.append_assoc, splitAtClosing, hopen, ihbody, hclose, ihts,
        Option.map_map]
      congr 1

/-- From the start, the search stops at the closing parenthesis behind the first tokens that match.
-/
theorem splitAtClosing_eq_some_iff {ts body rest : List Token} {closing : Token} :
    splitAtClosing 0 ts = some (body, closing, rest) ↔
      ts = body ++ closing :: rest ∧ Balanced body ∧ closing.kind = .parenClose := by
  constructor
  · intro h
    exact ⟨eq_append_of_splitAtClosing h, closes_of_splitAtClosing h, kind_of_splitAtClosing h⟩
  · rintro ⟨rfl, hbody, hclosing⟩
    simp [splitAtClosing_append hbody, splitAtClosing, hclosing]

/-- A parenthesis in front of these tokens is closed by one of them: up to there they match. -/
def ClosedIn (ts : List Token) : Prop :=
  ∃ body closing rest, ts = body ++ closing :: rest ∧ Balanced body ∧ closing.kind = .parenClose

/-- What is closed by one of these tokens is closed whatever comes behind. -/
theorem ClosedIn.append {ts : List Token} (h : ClosedIn ts) (us : List Token) :
    ClosedIn (ts ++ us) := by
  obtain ⟨body, closing, rest, rfl, hbody, hclose⟩ := h
  exact ⟨body, closing, rest ++ us, by simp, hbody, hclose⟩

/-- Where parentheses match, each of them is closed. -/
theorem Balanced.closedIn {ts before after : List Token} {opening : Token} (h : Balanced ts)
    (hts : ts = before ++ opening :: after) (hopen : opening.kind = .parenOpen) :
    ClosedIn after := by
  induction h generalizing before after with
  | nil => simp at hts
  | @plain t ts hplain hclose _ ih =>
      cases before with
      | nil =>
          obtain rfl : t = opening := (List.cons.inj hts).1
          exact absurd hopen hplain
      | cons _ before => exact ih (List.cons.inj hts).2
  | @enclosed first closing body ts hfirst hbody hclose _ ihbody ihts =>
      cases before with
      | nil =>
          obtain ⟨-, rfl⟩ := List.cons.inj hts
          exact ⟨body, closing, ts, rfl, hbody, hclose⟩
      | cons _ before =>
          -- It is in the body or behind it. The one that closes the body is no opening.
          rcases List.append_eq_append_iff.mp (List.cons.inj hts).2 with
            ⟨between, rfl, hrest⟩ | ⟨between, hbody, hrest⟩
          · cases between with
            | nil =>
                obtain rfl : closing = opening := (List.cons.inj hrest).1
                rw [hclose] at hopen
                contradiction
            | cons _ between => exact ihts (List.cons.inj hrest).2
          · cases between with
            | nil =>
                obtain rfl : opening = closing := (List.cons.inj hrest).1
                rw [hclose] at hopen
                contradiction
            | cons _ between =>
                obtain ⟨rfl, rfl⟩ := List.cons.inj hrest
                exact (ihbody hbody).append _

/-! ### Counting -/

/-- The number of tokens of a kind. -/
def countKind (kind : TokenKind) (ts : List Token) : Nat :=
  ts.countP (·.kind = kind)

/-- There is no token of a kind in no tokens. -/
@[simp]
theorem countKind_nil (kind : TokenKind) : countKind kind [] = 0 := rfl

/-- Each token counts for its own kind. -/
@[simp]
theorem countKind_cons (kind : TokenKind) (t : Token) (ts : List Token) :
    countKind kind (t :: ts) = countKind kind ts + if t.kind = kind then 1 else 0 := by
  simp [countKind, List.countP_cons]

/-- Tokens of both parts are counted. -/
@[simp]
theorem countKind_append (kind : TokenKind) (ts us : List Token) :
    countKind kind (ts ++ us) = countKind kind ts + countKind kind us :=
  List.countP_append

/-- Up to every place no more parentheses are closed than opened, and in the end as many. -/
structure ParensMatch (ts : List Token) : Prop where
  closed_le : ∀ us, us <+: ts → countKind .parenClose us ≤ countKind .parenOpen us
  closed_eq : countKind .parenClose ts = countKind .parenOpen ts

/-- Whether parentheses match can be decided, since there are finitely many places to count up to.
-/
instance (ts : List Token) : Decidable (ParensMatch ts) :=
  decidable_of_iff
    ((∀ us ∈ ts.inits, countKind .parenClose us ≤ countKind .parenOpen us) ∧
      countKind .parenClose ts = countKind .parenOpen ts)
    ⟨fun h => ⟨fun us hus => h.1 us ((List.mem_inits us ts).mpr hus), h.2⟩,
      fun h => ⟨fun us hus => h.closed_le us ((List.mem_inits us ts).mp hus), h.closed_eq⟩⟩

/-- Counting, with so many parentheses open from before. -/
theorem closes_of_counts {depth : Nat} {ts : List Token}
    (hle : ∀ us, us <+: ts → countKind .parenClose us ≤ countKind .parenOpen us + depth)
    (heq : countKind .parenClose ts = countKind .parenOpen ts + depth) : Closes depth ts := by
  induction ts generalizing depth with
  | nil =>
      obtain rfl : depth = 0 := by simpa using heq.symm
      exact Balanced.nil
  | cons t ts ih =>
      -- Behind the first token the counts start from another depth.
      have hrest : ∀ depth', depth' + (if t.kind = .parenClose then 1 else 0)
          = depth + (if t.kind = .parenOpen then 1 else 0) → Closes depth' ts := by
        intro depth' hdepth
        refine ih (fun us hus => ?_) ?_
        · have hcount := hle (t :: us) (List.cons_prefix_cons.mpr ⟨rfl, hus⟩)
          rw [countKind_cons, countKind_cons] at hcount
          omega
        · rw [countKind_cons, countKind_cons] at heq
          omega
      by_cases hopen : t.kind = .parenOpen
      · exact .opening hopen (hrest (depth + 1) (by simp [hopen]))
      · by_cases hclose : t.kind = .parenClose
        · -- The token closes a parenthesis, so one was open.
          have hfirst := hle [t] (List.cons_prefix_cons.mpr ⟨rfl, List.nil_prefix⟩)
          obtain ⟨depth, rfl⟩ : ∃ d, depth = d + 1 := by
            cases depth with
            | zero => simp [hclose] at hfirst
            | succ d => exact ⟨d, rfl⟩
          exact ⟨[], t, ts, rfl, .nil, hclose, hrest depth (by simp [hclose])⟩
        · exact .plain hopen hclose (hrest depth (by simp [hopen, hclose]))

/-- The first tokens of a list in two parts: some of the first part, or all of it and some of the
second. -/
theorem prefix_append_cases {us ts ts' : List Token} (h : us <+: ts ++ ts') :
    us <+: ts ∨ ∃ vs, vs <+: ts' ∧ us = ts ++ vs := by
  rcases List.prefix_or_prefix_of_prefix h (List.prefix_append ts ts') with hus | ⟨vs, rfl⟩
  · exact .inl hus
  · exact .inr ⟨vs, (List.prefix_append_right_inj ts).mp h, rfl⟩

/-- Matching by structure is matching by counts, by induction on the structure. -/
theorem Balanced.parensMatch {ts : List Token} (h : Balanced ts) : ParensMatch ts := by
  induction h with
  | nil =>
      refine ⟨fun us hus => ?_, rfl⟩
      rw [List.prefix_nil.mp hus]
      exact Nat.le_refl 0
  | @plain t ts hopen hclose hts ih =>
      refine ⟨fun us hus => ?_, ?_⟩
      · rcases List.prefix_cons_iff.mp hus with rfl | ⟨vs, rfl, hvs⟩
        · simp
        · simpa [hopen, hclose] using ih.closed_le vs hvs
      · simpa [hopen, hclose] using ih.closed_eq
  | @enclosed opening closing body ts hopen hbody hclose hts ihbody ihts =>
      refine ⟨fun us hus => ?_, ?_⟩
      · rcases List.prefix_cons_iff.mp hus with rfl | ⟨vs, rfl, hvs⟩
        · simp
        · -- Inside of the body one more is open, and behind it all is as before.
          rcases prefix_append_cases hvs with hvs | ⟨ws, hws, rfl⟩
          · have hcount := ihbody.closed_le vs hvs
            simp only [countKind_cons, hopen, reduceCtorEq, if_false, if_true]
            omega
          · have hcount := ihbody.closed_eq
            rcases List.prefix_cons_iff.mp hws with rfl | ⟨ws', rfl, hws'⟩
            · simp [hopen, hcount]
            · have hrest := ihts.closed_le ws' hws'
              simp only [countKind_cons, countKind_append, hopen, hclose, reduceCtorEq, if_false,
                if_true]
              omega
      · have hcount := ihbody.closed_eq
        have hrest := ihts.closed_eq
        simp only [countKind_cons, countKind_append, hopen, hclose, reduceCtorEq, if_false, if_true]
        omega

/-- Both ways to say that parentheses match agree. -/
theorem balanced_iff_parensMatch {ts : List Token} : Balanced ts ↔ ParensMatch ts := by
  constructor
  · exact Balanced.parensMatch
  · intro h
    exact (closes_of_counts h.closed_le h.closed_eq : Closes 0 ts)

end Scim
