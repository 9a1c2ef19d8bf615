import Scim.Proofs.Parse.Simulation

/-!
# `Scim.Proofs.Parse.Bodies`: the bodies of groups need not be scanned again

The program finds the body of a group or negation by matching parentheses, and then scans the
characters of the body and reads the new tokens. A reader that keeps the tokens it has would be
simpler: `Policy.slicing` reads the slice of the tokens between the parentheses.

The two cannot be told apart by what they return:

* `outcome_readBody_eq_sliceBody`: not on a single body. The reason is `Scans.between`: the slice is
  what the second scan finds. It needs that the tokens at hand are part of a scan.
* `outcome_expression_eq_slices`: not on expressions, by `Policy.Simulates.expression`.
* `parseFilter_eq_once` and `parsePath_eq_once`: not on whole texts. Most of what is proved about
  the parsers starts with `parseFilter_eq_slices` or `parsePath_eq_slices`, so that it need not deal
  with more than one scan.

They differ in their records only, since every scan is recorded.
-/

set_option autoImplicit false

namespace Scim

open Attempt

/-- Reads the tokens between the parentheses as they are. -/
def sliceBody : BodyReader := fun s read group inValuePath => do
  let step ← read (.make s.source group.body) group.body_lighter inValuePath
  return step.value

/-- Reads the body of a group from the tokens that are there, with the errors of the program. -/
def Policy.slicing : Policy := ⟨sliceBody, TokenStream.error⟩

/-- Reading with the same outcome, whatever is recorded. -/
def sameOutcome : Simulation Attempt where
  Rel a a' := a.outcome = a'.outcome
  rel_pure _ := rfl
  rel_bind := outcome_bind_congr

/-! ### Both readers agree on the tokens of a scan -/

/-- A body is read to the same result, if the expression in it is. -/
theorem outcome_readBody_eq_sliceBody {mode : Mode} {s : TokenStream}
    {read read' : Lighter Attempt s} (group : Group s) (inValuePath : Bool)
    (hscan : Scanned mode s.rest)
    (h : ∀ t ht v, Scanned mode t.rest → (read t ht v).outcome = (read' t ht v).outcome) :
    (sliceBody s read group inValuePath).outcome
      = (readBody mode s read' group inValuePath).outcome := by
  unfold readBody sliceBody
  rw [outcome_bind (scan _ _ _ _), outcome_scan (group.tokensFrom_body hscan)]
  exact outcome_bind_congr (h _ _ _ (hscan.of_infix group.body_isInfix)) fun _ _ => rfl

/-- Reading the slice of a body is one of the ways that cannot be told from scanning it again. -/
theorem slicing_simulates (mode : Mode) : Policy.slicing.Simulates sameOutcome mode where
  rel_refl _ := rfl
  error _ _ _ := rfl
  body := outcome_readBody_eq_sliceBody

/-- Reading the slices of one scan gives the same result as scanning every body again. -/
theorem outcome_expression_eq_slices {mode : Mode} {s : TokenStream} (hscan : Scanned mode s.rest)
    (inValuePath : Bool) :
    ((Policy.rescanning mode).expression s inValuePath).outcome
      = (Policy.slicing.expression s inValuePath).outcome :=
  ((slicing_simulates mode).expression hscan inValuePath).symm

/-! ### Reading with a single scan -/

/-- `parseFilter` with a single scan. -/
def parseFilterOnce (input : String) : Except ParseError (Option Node) :=
  (Policy.slicing.parser.filter input).outcome

/-- `parsePath` with a single scan. -/
def parsePathOnce (input : String) : Except ParseError PathExpression :=
  (Policy.slicing.parser.path input).outcome

/-- The program reads a filter as it would with a single scan. -/
theorem parseFilter_eq_once (input : String) : parseFilter input = parseFilterOnce input :=
  (((slicing_simulates .filter).parser input).filter).symm

/-- And a path. -/
theorem parsePath_eq_once (input : String) : parsePath input = parsePathOnce input :=
  (((slicing_simulates .path).parser input).path).symm

/-- A filter is what the scan and the slicing reader give, one after the other. -/
theorem parseFilter_eq_slices (input : String) : parseFilter input
    = (scan .filter input 0 input.toList >>= fun tokens =>
        Policy.slicing.expression tokens.val false >>= fun step => pure step.value).outcome :=
  (parseFilter_eq_once input).trans (Policy.slicing.outcome_filter input)

/-- A path is what the scan and the slicing reader give, one after the other. -/
theorem parsePath_eq_slices (input : String) : parsePath input
    = (scan .path input 0 input.toList >>= fun tokens =>
        (Policy.slicing.parser.reading tokens.val).path).outcome :=
  (parsePath_eq_once input).trans (Policy.slicing.outcome_path input)

/-- Scanning again is immaterial. Take a scan of a text, or of a part of it that starts and ends
between two characters, such as the body of a group.

1. Scanning what stands between an opening parenthesis of it and a later closing one gives exactly
   the tokens between them, with their offsets into the whole text.
2. On its tokens, reading with a second scan of each body returns the same as reading slices.

So both parsers return on every input what they would return with a single scan. -/
theorem rescanning_bodies_changes_nothing :
    (∀ (mode : Mode) (source : String) (start stop : String.Pos.Raw) (tokens : List Token),
      start.IsValid source → stop.IsValid source → start ≤ stop →
      tokensBetween mode source start stop = .ok tokens →
      (∀ (before body after : List Token) (opening closing : Token),
        tokens = before ++ opening :: (body ++ closing :: after) →
        opening.kind = .parenOpen → closing.kind = .parenClose →
        tokensBetween mode source ⟨opening.stop⟩ ⟨closing.offset⟩ = .ok body) ∧
      ∀ inValuePath : Bool,
        ((Policy.rescanning mode).expression (.make source tokens) inValuePath).outcome
          = (Policy.slicing.expression (.make source tokens) inValuePath).outcome) ∧
    ∀ input : String,
      parseFilter input = parseFilterOnce input ∧ parsePath input = parsePathOnce input := by
  refine ⟨?_, fun input => ⟨parseFilter_eq_once input, parsePath_eq_once input⟩⟩
  intro mode source start stop tokens hstart hstop hle hscan
  constructor
  · -- Nothing is asked of the opening, since any token ends where the next one starts.
    rintro before body after opening closing rfl - hclosing
    exact tokensBetween_parens hstart hstop hle hscan hclosing
  · intro inValuePath
    refine outcome_expression_eq_slices ?_ inValuePath
    exact ⟨_, _, tokens, tokensFrom_eq_ok_iff.mp hscan, List.infix_refl tokens⟩

/-- In `(a eq ")")` the quoted parenthesis closes nothing: the body between the two others is
scanned again to the same three tokens. -/
theorem rescanning_bodies_changes_nothing_quoted :
    tokensBetween .filter "(a eq \")\")" 0 ⟨10⟩
        = .ok ([] ++ ⟨.parenOpen, "(", 0⟩ ::
            ([⟨.name, "a", 1⟩, ⟨.comparisonOperator, " eq ", 2⟩, ⟨.string, "\")\"", 6⟩] ++
              ⟨.parenClose, ")", 9⟩ :: [])) ∧
      tokensBetween .filter "(a eq \")\")" ⟨1⟩ ⟨9⟩
        = .ok [⟨.name, "a", 1⟩, ⟨.comparisonOperator, " eq ", 2⟩, ⟨.string, "\")\"", 6⟩] := by
  have hscan : tokensBetween .filter "(a eq \")\")" 0 ⟨10⟩
      = .ok ([] ++ ⟨.parenOpen, "(", 0⟩ ::
          ([⟨.name, "a", 1⟩, ⟨.comparisonOperator, " eq ", 2⟩, ⟨.string, "\")\"", 6⟩] ++
            ⟨.parenClose, ")", 9⟩ :: [])) := by
    decide +kernel
  have hstop : (⟨10⟩ : String.Pos.Raw).IsValid "(a eq \")\")" := String.Pos.Raw.isValid_rawEndPos
  refine ⟨hscan, ?_⟩
  exact (rescanning_bodies_changes_nothing.1 .filter "(a eq \")\")" 0 ⟨10⟩ _
    String.Pos.Raw.isValid_zero hstop (by decide) hscan).1 [] _ [] _ _ rfl rfl rfl

end Scim
