import Scim.Parse.Expression
import Scim.Proofs.Token.Rescan

/-!
# `Scim.Proofs.Parse.Steps`: steps in a row, and the tokens they take

What every proof about readers needs, whatever the proof is about:

* `Attempt.outcome_bind_eq_ok_iff` and `Attempt.outcome_bind_eq_error_iff` take steps in a row
  apart: how they succeed together and how they fail. `Attempt.outcome_bind_congr` compares two
  rows of steps.
* `takeToken_of_consume` and `takeToken_of_consume_eq_error` say what a step is, and
  `rest_of_takeToken` what it takes off a stream.
* `outcome_scan` says what a scan gives.
* `Scanned` holds of consecutive tokens of a scan. It passes from a stream to every stream that
  reading leads to (`TokenStream.Follows.scanned`) and to the body of a group.
* `Group.tokensFrom_body` is what that is good for: a body that is scanned again gives the tokens
  that are there already.

The last section is about whole texts. What a filter or a path is read to depends on the scan and on
what is read from its tokens, and on nothing that is recorded (`Policy.outcome_filter`,
`Policy.outcome_path`).
-/

set_option autoImplicit false

namespace Scim

/-! ### Outcomes of steps in a row -/

namespace Attempt

variable {α β : Type}

/-- Two steps succeed if the first one does, and the second one with what the first one gives. -/
theorem outcome_bind_eq_ok_iff {a : Attempt α} {f : α → Attempt β} {b : β} :
    (a >>= f).outcome = .ok b ↔ ∃ x, a.outcome = .ok x ∧ (f x).outcome = .ok b := by
  rw [outcome_bind]
  cases a.outcome with
  | error e => simp [Except.bind]
  | ok x => simp [Except.bind]

/-- They fail if the first one does, or the second one with what the first one gives. -/
theorem outcome_bind_eq_error_iff {a : Attempt α} {f : α → Attempt β} {e : ParseError} :
    (a >>= f).outcome = .error e ↔
      a.outcome = .error e ∨ ∃ x, a.outcome = .ok x ∧ (f x).outcome = .error e := by
  rw [outcome_bind]
  cases a.outcome with
  | error e => simp [Except.bind]
  | ok x => simp [Except.bind]

/-- Steps that agree wherever the first one leads have the same outcome together. -/
theorem outcome_bind_congr {a a' : Attempt α} {f f' : α → Attempt β} (ha : a.outcome = a'.outcome)
    (hf : ∀ x, a'.outcome = .ok x → (f x).outcome = (f' x).outcome) :
    (a >>= f).outcome = (a' >>= f').outcome := by
  rw [outcome_bind, outcome_bind, ha]
  cases h : a'.outcome with
  | error e => rfl
  | ok x => exact hf x h

end Attempt

open Attempt

/-! ### What a scan, a token and a group take -/

/-- A text that is divided into tokens is scanned to the stream of these tokens. -/
theorem outcome_scan {mode : Mode} {offset : Nat} {cs : List Char} {tokens : List Token}
    (h : tokensFrom mode offset cs = .ok tokens) (source : String) :
    (scan mode source offset cs).outcome
      = .ok ⟨.make source tokens, Nat.le_of_eq (tokensWeight_tokensFrom h)⟩ := by
  unfold scan
  split
  · next tokens' hok =>
      rw [h] at hok
      cases hok
      rfl
  · next herror =>
      rw [h] at herror
      contradiction

/-- A token of one of the kinds is consumed. -/
theorem TokenStream.consume_of_rest_eq {kinds : List TokenKind} {s : TokenStream} {t : Token}
    {ts : List Token} (h : s.rest = t :: ts) (hkind : t.kind ∈ kinds) :
    s.consume kinds = .ok (t, ⟨s.source, t :: s.consumed, ts⟩) := by
  simp [consume, advance, h, hkind]

/-- A token that can be consumed is taken, with the proof that the stream behind it follows. -/
theorem takeToken_of_consume {kinds : List TokenKind} {s rest : TokenStream} {t : Token}
    (h : s.consume kinds = .ok (t, rest)) :
    takeToken kinds s = pure ⟨t, rest, TokenStream.follows_of_consume h⟩ := by
  unfold takeToken
  split
  · next heq =>
      rw [h] at heq
      cases heq
      rfl
  · next heq =>
      rw [h] at heq
      cases heq

/-- A token that cannot be consumed is not taken, for the same reason. -/
theorem takeToken_of_consume_eq_error {kinds : List TokenKind} {s : TokenStream} {e : ParseError}
    (h : s.consume kinds = .error e) : takeToken kinds s = .fail e := by
  unfold takeToken
  split
  · next heq =>
      rw [h] at heq
      cases heq
  · next heq =>
      rw [h] at heq
      cases heq
      rfl

/-- What is taken has been consumed. -/
theorem consume_of_takeToken {kinds : List TokenKind} {s : TokenStream} {step : Step s Token}
    (h : (takeToken kinds s).outcome = .ok step) :
    s.consume kinds = .ok (step.value, step.rest) := by
  unfold takeToken at h
  split at h
  · next t rest hconsume =>
      obtain rfl : (⟨t, rest, TokenStream.follows_of_consume hconsume⟩ : Step s Token) = step := by
        simpa using h
      exact hconsume
  · simp at h

/-- The token that is taken is the next one, of one of the kinds, and what is left is behind it. -/
theorem rest_of_takeToken {kinds : List TokenKind} {s : TokenStream} {step : Step s Token}
    (h : (takeToken kinds s).outcome = .ok step) :
    s.rest = step.value :: step.rest.rest ∧ step.value.kind ∈ kinds := by
  obtain ⟨hrest, hkind, -⟩ := TokenStream.rest_eq_of_consume (consume_of_takeToken h)
  exact ⟨hrest, hkind⟩

/-- The token that is taken is the one consumed last. -/
theorem current?_of_takeToken {kinds : List TokenKind} {s : TokenStream} {step : Step s Token}
    (h : (takeToken kinds s).outcome = .ok step) : step.rest.current? = some step.value := by
  obtain ⟨-, -, hrest⟩ := TokenStream.rest_eq_of_consume (consume_of_takeToken h)
  rw [hrest]
  rfl

/-- The parenthesis that a body is split off at is a closing one. -/
theorem kind_of_splitAtClosing {depth : Nat} {ts body rest : List Token} {closing : Token}
    (h : splitAtClosing depth ts = some (body, closing, rest)) : closing.kind = .parenClose := by
  induction ts generalizing depth body with
  | nil => simp [splitAtClosing] at h
  | cons t ts ih =>
      simp only [splitAtClosing] at h
      split at h
      · next hkind _ =>
          simp only [Option.some.injEq, Prod.mk.injEq] at h
          obtain ⟨-, rfl, -⟩ := h
          assumption
      all_goals
        -- The search goes on, at whichever depth.
        simp only [Option.map_eq_some_iff, Prod.mk.injEq, Prod.exists] at h
        obtain ⟨body', closing', rest', hrec, -, rfl, rfl⟩ := h
        exact ih hrec

/-! ### Tokens of a scan -/

/-- Consecutive tokens of a scan. -/
def Scanned (mode : Mode) (ts : List Token) : Prop :=
  ∃ offset cs all, Scans mode offset cs all [] ∧ ts <:+: all

/-- All tokens of a scan are consecutive. -/
theorem scanned_of_tokensFrom {mode : Mode} {offset : Nat} {cs : List Char} {ts : List Token}
    (h : tokensFrom mode offset cs = .ok ts) : Scanned mode ts :=
  ⟨offset, cs, ts, tokensFrom_eq_ok_iff.mp h, List.infix_rfl⟩

/-- Consecutive ones among them are as well. -/
theorem Scanned.of_infix {mode : Mode} {ts us : List Token} (h : Scanned mode ts)
    (hus : us <:+: ts) : Scanned mode us := by
  obtain ⟨offset, cs, all, hscan, hts⟩ := h
  exact ⟨offset, cs, all, hscan, hus.trans hts⟩

namespace Scanned

variable {mode : Mode} {t : Token} {ts us : List Token}

/-- What is behind a token of a scan is consecutive, too. -/
theorem tail (h : Scanned mode (t :: ts)) : Scanned mode ts :=
  h.of_infix (List.suffix_cons t ts).isInfix

/-- So is what is in front. -/
theorem left (h : Scanned mode (ts ++ us)) : Scanned mode ts :=
  h.of_infix (List.prefix_append ts us).isInfix

/-- And what is behind some of them. -/
theorem right (h : Scanned mode (ts ++ us)) : Scanned mode us :=
  h.of_infix (List.suffix_append ts us).isInfix

/-- Each token of a scan is in front of others, or it is the last one. -/
theorem of_mem (h : Scanned mode ts) (ht : t ∈ ts) : ∃ us, Scanned mode (t :: us) := by
  obtain ⟨before, after, rfl⟩ := List.append_of_mem ht
  exact ⟨after, h.right⟩

end Scanned

/-- The stream of a scan holds the tokens of that scan. -/
theorem tokensFrom_of_scan {mode : Mode} {source : String} {offset : Nat} {cs : List Char}
    {tokens : { s : TokenStream // s.weight ≤ cs.length }}
    (h : (scan mode source offset cs).outcome = .ok tokens) :
    tokensFrom mode offset cs = .ok tokens.val.rest := by
  cases hfrom : tokensFrom mode offset cs with
  | ok ts =>
      rw [outcome_scan hfrom] at h
      cases h
      rfl
  | error e =>
      unfold scan at h
      split at h
      · next hok => rw [hfrom] at hok; contradiction
      · simp [Except.bind] at h

/-- The stream of a scanned text holds tokens of a scan. -/
theorem scanned_of_scan {mode : Mode} {input : String}
    {tokens : { s : TokenStream // s.weight ≤ input.toList.length }}
    (h : (scan mode input 0 input.toList).outcome = .ok tokens) : Scanned mode tokens.val.rest :=
  scanned_of_tokensFrom (tokensFrom_of_scan h)

section
variable {s : TokenStream}

/-- Where reading leads from tokens of a scan, there are tokens of that scan. -/
theorem TokenStream.Follows.scanned {mode : Mode} {t : TokenStream} (ht : t.Follows s)
    (hscan : Scanned mode s.rest) : Scanned mode t.rest :=
  hscan.of_infix ht.suffix.isInfix

/-- The body of a group is a part of the tokens of the stream. -/
theorem Group.body_isInfix (group : Group s) : group.body <:+: s.rest :=
  ⟨[group.opening], group.closing :: group.rest.rest, by rw [group.front]; simp⟩

/-- The second scan of a body finds the tokens that are there already. -/
theorem Group.tokensFrom_body {mode : Mode} (hscan : Scanned mode s.rest) (group : Group s) :
    tokensFrom mode group.opening.stop (Token.charsOf group.body) = .ok group.body := by
  obtain ⟨offset, cs, all, hall, before, after, hinfix⟩ := hscan
  -- The body stands between two parentheses of the scan that the stream comes from.
  rw [← hinfix, group.front] at hall
  simp only [List.cons_append, List.append_assoc] at hall
  exact tokensFrom_eq_ok_iff.mpr (hall.between (kind_of_splitAtClosing group.matched))

end

/-! ### Whole texts -/

namespace Policy

variable (policy : Policy) (input : String)

/-- The stream of a text holds the tokens of its scan. -/
theorem outcome_scan {mode : Mode} {input : String} {tokens : List Token}
    (h : tokensFrom mode 0 input.toList = .ok tokens) :
    (policy.operations.scan mode input).outcome = .ok (.make input tokens) :=
  outcome_bind_eq_ok_iff.mpr ⟨_, Scim.outcome_scan h input, rfl⟩

/-- What a filter is read to depends on the scan and on the expression in front, whatever is
recorded and whatever is left. -/
theorem outcome_filter : (policy.parser.filter input).outcome
    = (scan .filter input 0 input.toList >>= fun tokens =>
        policy.expression tokens.val false >>= fun step => pure step.value).outcome := by
  show ((scan _ _ _ _ >>= _) >>= _).outcome = _
  rw [outcome_bind, outcome_bind, outcome_bind]
  cases (scan .filter input 0 input.toList).outcome with
  | error e => rfl
  | ok tokens =>
      show ((policy.parser.reading tokens.val).filter input).outcome
        = (policy.expression tokens.val false >>= fun step => pure step.value).outcome
      rw [Policy.expression]
      refine outcome_bind_congr rfl fun step _ => ?_
      -- The note on tokens that are left is all that the two differ in.
      split <;> rfl

/-- What a path is read to depends on the scan and on the tokens it gives. -/
theorem outcome_path : (policy.parser.path input).outcome
    = (scan .path input 0 input.toList >>= fun tokens =>
        (policy.parser.reading tokens.val).path).outcome := by
  show ((scan _ _ _ _ >>= _) >>= _).outcome = _
  rw [outcome_bind, outcome_bind, outcome_bind]
  cases (scan .path input 0 input.toList).outcome <;> rfl

end Policy

end Scim
