import Scim.Proofs.Parse.Decoding
import Scim.Proofs.Parse.Literals
import Scim.Proofs.Parse.Simulation

/-!
# `Scim.Proofs.Parse.Fallbacks`: errors that are never reported

Two errors guard against a scan and readers that do not fit together: one for a literal without a
value, one for a logical operator that is not read. They are never reported, because every token of
a scan decodes.

To say so for whole parsers, `Fallbacks` makes these two errors a parameter. `filterOr` and `pathOr`
are the parsers with other errors in their place. Both are the same grammar with another policy, so
there is nothing to compare but the policies.

* `Fallbacks.error_eq`: the two errors can be told apart only for a fault that no scan contains. The
  faults that the readers can meet at all are described by `Fault.Raised`.
* `Fallbacks.policy_simulates`: so nothing depends on the two errors, neither the outcome nor the
  events. The streams that are read from are scanned ones throughout, the bodies of groups included,
  since these are scanned again.
* `tokens_decode` is the result.
-/

set_option autoImplicit false

namespace Scim

/-- Steps that agree wherever the first one leads are the same together. -/
theorem Attempt.bind_congr_of_ok {α β : Type} {a : Attempt α} {f g : α → Attempt β}
    (h : ∀ x, a.outcome = .ok x → f x = g x) : a >>= f = a >>= g := by
  show a.andThen f = a.andThen g
  unfold Attempt.andThen
  split
  · next x hx => rw [h x hx]
  · rfl

open Attempt

/-! ### Parsers with other errors -/

/-- The errors for a literal without a value and for a logical operator that is not read. -/
structure Fallbacks where
  literal : TokenStream → Token → ParseError
  logicalOperator : TokenStream → Token → ParseError

namespace Fallbacks

variable (fallbacks : Fallbacks)

/-- These two errors, and for everything else those of the program. -/
def error (s : TokenStream) : Fault → ParseError
  | .literal t => fallbacks.literal s t
  | .connective t => fallbacks.logicalOperator s t
  | fault => s.error fault

/-- Reads as the program does, with these errors. -/
def policy (mode : Mode) : Policy := ⟨readBody mode, fallbacks.error⟩

end Fallbacks

/-- `attemptFilter` with these errors. -/
def filterOr (fallbacks : Fallbacks) (input : String) : Attempt (Option Node) :=
  (fallbacks.policy .filter).parser.filter input

/-- `attemptPath` with these errors. -/
def pathOr (fallbacks : Fallbacks) (input : String) : Attempt PathExpression :=
  (fallbacks.policy .path).parser.path input

/-- Without a scan the first one can be reported: `x` is no number. -/
example (fallbacks : Fallbacks) (path : AttributePath) :
    let s := TokenStream.make " eq x" [⟨.comparisonOperator, " eq ", 0⟩, ⟨.number, "x", 4⟩]
    ((fallbacks.policy .filter).operations.comparison path s).outcome
      = .error (fallbacks.literal s ⟨.number, "x", 4⟩) := by
  rfl

/-- And so can the second one: `xor` is no logical operator. -/
example (fallbacks : Fallbacks) (left : Node) :
    let s := TokenStream.make " xor " [⟨.logicalOperator, " xor ", 0⟩]
    (((fallbacks.policy .filter).parser.reading s).connective left false).outcome
      = .error (fallbacks.logicalOperator s ⟨.logicalOperator, " xor ", 0⟩) := by
  rfl

/-! ### Nothing depends on them -/

/-- Reading in the same way, with the same record. -/
def sameAttempt : Simulation Attempt where
  Rel a a' := a = a'
  rel_pure _ := rfl
  rel_bind ha hf := ha ▸ bind_congr_of_ok fun x hx => hf x (ha ▸ hx)

/-- On the tokens of a scan there is nothing that the two errors would be for. -/
theorem Fallbacks.error_eq {mode : Mode} {fault : Fault} (h : fault.Raised mode)
    (fallbacks : Fallbacks) (s : TokenStream) : fallbacks.error s fault = s.error fault := by
  cases fault with
  | literal t =>
      obtain ⟨⟨ts, hscan⟩, hkind, hnone⟩ := h
      obtain ⟨v, hv, -⟩ := hscan.literal_value hkind
      rw [hv] at hnone
      contradiction
  | connective t =>
      obtain ⟨⟨ts, hscan⟩, hkind, hread⟩ := h
      obtain ⟨operator, hoperator⟩ := hscan.exists_read_logicalOperator (by simpa using hkind)
      exact absurd hoperator (hread operator)
  | _ => rfl

/-- Reading with other errors is reading with those of the program. -/
theorem Fallbacks.policy_simulates (fallbacks : Fallbacks) (mode : Mode) :
    (fallbacks.policy mode).Simulates sameAttempt mode where
  rel_refl _ := rfl
  error s fault h := congrArg Attempt.fail (fallbacks.error_eq h s)
  body group v _ hread := by
    refine bind_congr_of_ok fun inner hinner => ?_
    -- A body is scanned again, so its stream holds the tokens of a scan as well.
    have hscan := scanned_of_tokensFrom (tokensFrom_of_scan hinner)
    exact sameAttempt.rel_bind (hread _ _ v hscan) fun _ _ => rfl

/-- The scan and the readers of its tokens fit together: every token of a scan decodes. So a literal
without a value and a logical operator that is not read never turn up in either parser, and another
error in their place would change nothing. -/
theorem tokens_decode :
    (∀ (mode : Mode) (offset : Nat) (cs : List Char) (tokens : List Token),
      tokensFrom mode offset cs = .ok tokens → ∀ t ∈ tokens, t.Decodes) ∧
    ∀ (fallbacks : Fallbacks) (input : String),
      filterOr fallbacks input = attemptFilter input ∧
        pathOr fallbacks input = attemptPath input := by
  constructor
  · intro mode offset cs tokens htokens t ht
    obtain ⟨ts, hscan⟩ := (scanned_of_tokensFrom htokens).of_mem ht
    exact hscan.decodes
  · intro fallbacks input
    exact ⟨((fallbacks.policy_simulates .filter).parser input).filter,
      ((fallbacks.policy_simulates .path).parser input).path⟩

/-- A qualified name, a number, a logical operator, a string and an operator with a long s. -/
theorem tokens_decode_longS :
    tokensFrom .filter 0 "u:a.b eq 10 OR c ſw \"x\"".toList = .ok
        [⟨.name, "u:a.b", 0⟩, ⟨.comparisonOperator, " eq ", 5⟩, ⟨.number, "10", 9⟩,
          ⟨.logicalOperator, " OR ", 11⟩, ⟨.name, "c", 15⟩, ⟨.comparisonOperator, " ſw ", 16⟩,
          ⟨.string, "\"x\"", 21⟩] ∧
      (Token.mk .name "u:a.b" 0).Decodes ∧ (Token.mk .number "10" 9).Decodes ∧
      (Token.mk .logicalOperator " OR " 11).Decodes ∧ (Token.mk .string "\"x\"" 21).Decodes ∧
      (Token.mk .comparisonOperator " ſw " 16).Decodes ∧
      Text.longS ∈ (Token.mk .comparisonOperator " ſw " 16).trimmed.toList := by
  have hscan : tokensFrom .filter 0 "u:a.b eq 10 OR c ſw \"x\"".toList = .ok
      [⟨.name, "u:a.b", 0⟩, ⟨.comparisonOperator, " eq ", 5⟩, ⟨.number, "10", 9⟩,
        ⟨.logicalOperator, " OR ", 11⟩, ⟨.name, "c", 15⟩, ⟨.comparisonOperator, " ſw ", 16⟩,
        ⟨.string, "\"x\"", 21⟩] := by
    decide +kernel
  have h := tokens_decode.1 _ _ _ _ hscan
  exact ⟨hscan, h _ (by simp), h _ (by simp), h _ (by simp), h _ (by simp), h _ (by simp),
    by decide +kernel⟩

end Scim
