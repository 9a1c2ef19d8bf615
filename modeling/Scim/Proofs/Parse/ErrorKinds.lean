import Scim.Proofs.Parse.Honest
import Scim.Proofs.Parse.Refusals
import Scim.Proofs.Token.Partition

/-!
# `Scim.Proofs.Parse.ErrorKinds`: what an error says about a text

The kinds of errors are about different things. A text may not be divided into tokens, it may have
no tokens, a path may start with the wrong one; and everything else is about the order of the
tokens. `Diagnosis` has a case for each of these, and every attempt to read a text is in one of them
(`diagnosis_filter`, `diagnosis_path`).

So a kind of error can be read backwards. For each of them there is a lemma about any attempt with a
diagnosis, by a comparison of the kind with the four cases:

* `Diagnosis.lexical_iff`, for the errors of the scan.
* `Diagnosis.emptyInput_iff`, for the empty text.
* `Diagnosis.expectedPath_iff`, for paths that start with the wrong token.
* `Diagnosis.dangling`, for logical operators without a right operand. Here the record of what was
  read is needed, as the error is of a kind that others share.

`errors_mean_what_they_say` is the result, for both parsers.
-/

set_option autoImplicit false

namespace Scim

open Attempt

/-! ### Whole attempts -/

/-- How an attempt to read a text can go. -/
inductive Diagnosis {α : Type} (mode : Mode) (input : String) (a : Attempt α) : Prop where
  /-- The text is not divided into tokens. -/
  | unscannable {e : ParseError} (hscan : tokenize mode input = .error e)
    (houtcome : a.outcome = .error e) (hquiet : a.Quiet)
  /-- There are no tokens. -/
  | empty (hinput : input = "") (houtcome : a.outcome = .error .emptyInput) (hquiet : a.Quiet)
  /-- A path does not start with a name. -/
  | noPath {t : Token} {ts : List Token} (hmode : mode = .path)
    (hscan : tokenize mode input = .ok (t :: ts)) (hkind : t.kind ≠ .name)
    (houtcome : a.outcome
      = .error (.expectedPath t.text t.kind (Location.locate input t.offset)))
    (hquiet : a.Quiet)
  /-- Everything else is about the order of the tokens. -/
  | read {t : Token} {ts : List Token} (hscan : tokenize mode input = .ok (t :: ts))
    (hkind : mode = .path → t.kind = .name) (hhonest : Honest input (t :: ts) a)

/-- The empty text has no tokens. -/
theorem tokenize_empty (mode : Mode) : tokenize mode "" = .ok [] := by
  rw [tokenize_eq, String.toList_empty, tokensFrom, if_pos rfl]
  rfl

/-- And it is the only one. -/
theorem eq_empty_of_tokenize {mode : Mode} {input : String} (h : tokenize mode input = .ok []) :
    input = "" := by
  have hchars := (tokenize_eq_ok_iff.mp h).charsOf_append
  exact String.toList_inj.mp hchars.symm

section
variable {α β : Type} {mode : Mode} {input : String}

/-- A first step that succeeds quietly does not matter. -/
theorem Diagnosis.bind {b : Attempt β} {f : β → Attempt α} {x : β} (hquiet : b.Quiet)
    (hx : b.outcome = .ok x) (h : Diagnosis mode input (f x)) :
    Diagnosis mode input (b >>= f) := by
  have houtcome : (b >>= f).outcome = (f x).outcome := by
    rw [outcome_bind, hx]
    rfl
  have hbind : (f x).Quiet → (b >>= f).Quiet := by
    intro hfx
    refine hquiet.bind fun y hy => ?_
    rw [hx] at hy
    cases hy
    exact hfx
  -- Each case is kept, with the quiet step put in front.
  cases h with
  | unscannable hscan he hfx => exact .unscannable hscan (houtcome.trans he) (hbind hfx)
  | empty hinput he hfx => exact .empty hinput (houtcome.trans he) (hbind hfx)
  | noPath hmode hscan hkind he hfx =>
      exact .noPath hmode hscan hkind (houtcome.trans he) (hbind hfx)
  | read hscan hkind hhonest =>
      refine .read hscan hkind (honest_bind (.of_quiet hquiet ?_) fun y hy => ?_)
      · intro e he
        rw [hx] at he
        contradiction
      · rw [hx] at hy
        cases hy
        exact hhonest

/-- After the scan, an attempt goes the way of what it does with the tokens. -/
theorem diagnosis_of_scan {policy : Policy} {f : TokenStream → Attempt α}
    (hempty : f (.make input []) = .fail .emptyInput)
    (hread : ∀ t ts, tokenize mode input = .ok (t :: ts) → Scanned mode (t :: ts) →
      Diagnosis mode input (f (.make input (t :: ts)))) :
    Diagnosis mode input
      (Attempt.note (.parsing mode input) >>= fun _ =>
        policy.operations.scan mode input >>= f) := by
  refine .bind (quiet_note fun _ _ => Event.noConfusion) rfl ?_
  have hquiet : (policy.operations.scan mode input).Quiet :=
    (quiet_scan input 0 input.toList).bind fun _ _ _ _ => List.not_mem_nil
  -- The scan fails, or it finds no tokens, or there is something to read.
  cases hscan : tokenize mode input with
  | error e =>
      have he : (policy.operations.scan mode input).outcome = .error e := by
        refine outcome_bind_eq_error_iff.mpr (.inl ?_)
        unfold tokenize at hscan
        cases houtcome : (scan mode input 0 input.toList).outcome with
        | ok s => rw [houtcome] at hscan; contradiction
        | error e' => rw [houtcome] at hscan; cases hscan; rfl
      refine .unscannable hscan (outcome_bind_eq_error_iff.mpr (.inl he)) ?_
      refine hquiet.bind fun x hx => ?_
      rw [he] at hx
      contradiction
  | ok tokens =>
      have htokens := tokenize_eq_ok_iff_tokensFrom.mp hscan
      refine .bind hquiet (policy.outcome_scan htokens) ?_
      cases tokens with
      | nil =>
          rw [hempty]
          exact .empty (eq_empty_of_tokenize hscan) rfl fun _ _ => List.not_mem_nil
      | cons t ts => exact hread t ts hscan (scanned_of_tokensFrom htokens)

/-- Every attempt to read a filter has a diagnosis. -/
theorem diagnosis_filter (input : String) : Diagnosis .filter input (attemptFilter input) := by
  refine diagnosis_of_scan rfl fun t ts hscan hscanned => ?_
  exact .read hscan (fun hmode => by contradiction)
    (honest_filter hscanned (TokenStream.cutFrom_make _ _))

/-- Every attempt to read a path has a diagnosis. Its first token is looked at before anything is
read, which gives the case that filters do not have. -/
theorem diagnosis_path (input : String) : Diagnosis .path input (attemptPath input) := by
  refine diagnosis_of_scan rfl fun t ts hscan hscanned => ?_
  have hnext : (TokenStream.make input (t :: ts)).isNext [.name] = decide (t.kind = .name) := by
    simp [TokenStream.isNext, TokenStream.peek?, TokenStream.make]
  by_cases hkind : t.kind = .name
  · refine .read hscan (fun _ => hkind) (honest_path hscanned (TokenStream.cutFrom_make _ _) ?_)
    rw [hnext, decide_eq_true hkind]
  · unfold Reading.path
    rw [hnext, if_pos (by simp [hkind])]
    exact .noPath rfl hscan hkind rfl fun _ _ => List.not_mem_nil

namespace Diagnosis

variable {a : Attempt α}

/-- The errors of scans are lexical. -/
theorem isLexical_of_tokenize {e : ParseError} (h : tokenize mode input = .error e) :
    e.isLexical = true := by
  obtain ⟨found, rest, -, -, -, rfl⟩ := tokenize_eq_error_iff.mp h
  rfl

/-- Errors are lexical if and only if they are those of the scan. -/
theorem lexical_iff (h : Diagnosis mode input a) {e : ParseError} :
    a.outcome = .error e ∧ e.isLexical = true ↔ tokenize mode input = .error e := by
  cases h with
  | @unscannable e' hscan houtcome hquiet =>
      have hlexical := isLexical_of_tokenize hscan
      rw [houtcome, hscan]
      grind
  | empty hinput houtcome hquiet =>
      subst hinput
      rw [houtcome, tokenize_empty]
      grind [ParseError.isLexical]
  | noPath hmode hscan hkind houtcome hquiet =>
      rw [houtcome, hscan]
      grind [ParseError.isLexical]
  | read hscan hkind hhonest =>
      rw [hscan]
      -- Errors about the order of tokens are of other kinds than those of the scan.
      have herror := hhonest.grammatical e
      cases e <;> simp_all [ParseError.isLexical, ParseError.isGrammatical]

/-- Only the empty text is called empty. -/
theorem emptyInput_iff (h : Diagnosis mode input a) :
    a.outcome = .error .emptyInput ↔ input = "" := by
  have hempty := tokenize_empty mode
  cases h with
  | @unscannable e hscan houtcome hquiet =>
      have hlexical := isLexical_of_tokenize hscan
      rw [houtcome]
      grind [ParseError.isLexical]
  | empty hinput houtcome hquiet => simp [hinput, houtcome]
  | noPath hmode hscan hkind houtcome hquiet =>
      rw [houtcome]
      grind
  | read hscan hkind hhonest =>
      have herror := hhonest.grammatical .emptyInput
      grind [ParseError.isGrammatical]

/-- A path is expected where another token is first, and nowhere else. -/
theorem expectedPath_iff (h : Diagnosis mode input a) {text : String} {kind : TokenKind}
    {place : Location} :
    a.outcome = .error (.expectedPath text kind place) ↔
      mode = .path ∧ ∃ t ts, tokenize mode input = .ok (t :: ts) ∧ t.kind ≠ .name ∧
        text = t.text ∧ kind = t.kind ∧ place = Location.locate input t.offset := by
  cases h with
  | @unscannable e hscan houtcome hquiet =>
      have hlexical := isLexical_of_tokenize hscan
      rw [houtcome]
      grind [ParseError.isLexical]
  | empty hinput houtcome hquiet =>
      subst hinput
      rw [houtcome, tokenize_empty]
      grind
  | noPath hmode hscan hkind houtcome hquiet =>
      rw [houtcome]
      grind
  | read hscan hkind hhonest =>
      have herror := hhonest.grammatical (.expectedPath text kind place)
      grind [ParseError.isGrammatical]

/-- An operator that is recorded to have no right operand is one of the text, and the token behind
it is blamed. -/
theorem dangling (h : Diagnosis mode input a) {operator : LogicalOperator} {offset : Nat}
    (hmem : .noRightOperand operator offset ∈ a.events) :
    ∃ tokens next, tokenize mode input = .ok tokens ∧ Dangling tokens operator offset next ∧
      a.outcome = .error
        (.unexpectedToken next.text next.kind (Location.locate input next.offset)) := by
  cases h with
  | unscannable hscan houtcome hquiet => exact absurd hmem (hquiet operator offset)
  | empty hinput houtcome hquiet => exact absurd hmem (hquiet operator offset)
  | noPath hmode hscan hkind houtcome hquiet => exact absurd hmem (hquiet operator offset)
  | read hscan hkind hhonest =>
      obtain ⟨next, hnext, he⟩ := hhonest.dangling operator offset hmem
      exact ⟨_, next, hscan, hnext, he⟩

end Diagnosis

end

/-! ### Both parsers -/

/-- What is recorded while a text is read, as a filter or as a path. -/
def recorded : Mode → String → List Event
  | .filter, input => (attemptFilter input).events
  | .path, input => (attemptPath input).events

/-- Both parsers at once: the attempt that stands behind the parser has a diagnosis. -/
theorem exists_diagnosis (mode : Mode) (input : String) :
    ∃ (α : Type) (a : Attempt α), Diagnosis mode input a ∧
      (∀ e, Refuses mode input e ↔ a.outcome = .error e) ∧ recorded mode input = a.events := by
  cases mode with
  | filter => exact ⟨_, _, diagnosis_filter input, fun _ => Iff.rfl, rfl⟩
  | path => exact ⟨_, _, diagnosis_path input, fun _ => Iff.rfl, rfl⟩

/-- A right operand that is read to no node is recorded. -/
theorem noRightOperand_mem_events {mode : Mode} {s : TokenStream} {left : Node} {v : Bool}
    {word : Step s Token} {operator : LogicalOperator}
    (hword : (takeToken [.logicalOperator] s).outcome = .ok word)
    (hoperator : LogicalOperator.read word.value.text = .ok operator)
    (hright : ReadsNothing ((Policy.rescanning mode).expression word.rest v)) :
    .noRightOperand operator word.value.offset
      ∈ (((Policy.rescanning mode).parser.reading s).connective left v).events := by
  obtain ⟨right, hright, hnone⟩ := hright
  unfold Reading.connective
  refine mem_events_bind_iff.mpr (.inr ⟨word, hword, ?_⟩)
  rw [hoperator]
  refine mem_events_bind_iff.mpr (.inr ⟨right, hright, ?_⟩)
  rw [hnone]
  exact mem_events_bind_iff.mpr (.inl (List.mem_singleton_self _))

/-- Errors mean what they say, for every text that is read as a filter or as a path.

1. A lexical error is the error of the scan of the whole text, and there is one if that scan fails.
2. The text is called empty exactly if it is.
3. Only a path is blamed for its first token, exactly if that is there and not a name.
4. If a logical operator is recorded to have no right operand, then a group or a negation starts
   directly behind it, and the error is at that token.
5. Such a record is made wherever the right operand is read to no node. -/
theorem errors_mean_what_they_say (mode : Mode) (input : String) :
    (∀ e, Refuses mode input e ∧ e.isLexical = true ↔ tokenize mode input = .error e) ∧
    (Refuses mode input .emptyInput ↔ input = "") ∧
    (∀ text kind place, Refuses mode input (.expectedPath text kind place) ↔
      mode = .path ∧ ∃ t ts, tokenize mode input = .ok (t :: ts) ∧ t.kind ≠ .name ∧
        text = t.text ∧ kind = t.kind ∧ place = Location.locate input t.offset) ∧
    (∀ operator offset, .noRightOperand operator offset ∈ recorded mode input →
      ∃ tokens next, tokenize mode input = .ok tokens ∧ Dangling tokens operator offset next ∧
        Refuses mode input
          (.unexpectedToken next.text next.kind (Location.locate input next.offset))) ∧
    ∀ (s : TokenStream) (left : Node) (inValuePath : Bool) (word : Step s Token)
      (operator : LogicalOperator), (takeToken [.logicalOperator] s).outcome = .ok word →
      LogicalOperator.read word.value.text = .ok operator →
      ReadsNothing ((Policy.rescanning mode).expression word.rest inValuePath) →
        .noRightOperand operator word.value.offset
          ∈ (((Policy.rescanning mode).parser.reading s).connective left inValuePath).events := by
  obtain ⟨α, a, hdiagnosis, hrefuses, hrecorded⟩ := exists_diagnosis mode input
  simp only [hrefuses, hrecorded]
  refine ⟨fun e => hdiagnosis.lexical_iff, hdiagnosis.emptyInput_iff,
    fun text kind place => hdiagnosis.expectedPath_iff, ?_, ?_⟩
  · intro operator offset hmem
    exact hdiagnosis.dangling hmem
  · intro s left inValuePath word operator hword hoperator hright
    exact noRightOperand_mem_events hword hoperator hright

/-- The right operand of `or` is the negation of an empty group, in a group on the right of `and`:
the error of the whole text is at `not`. And a path that starts with a group. -/
theorem errors_mean_what_they_say_nested :
    (.noRightOperand .or 14 ∈ recorded .filter "a pr and (b pr or not (()))" ∧
      Refuses .filter "a pr and (b pr or not (()))"
        (.unexpectedToken "not " .negation ⟨1, 19, 18⟩) ∧
      ∃ tokens next, tokenize .filter "a pr and (b pr or not (()))" = .ok tokens ∧
        Dangling tokens .or 14 next ∧ next.text = "not " ∧ next.kind = .negation) ∧
    Refuses .path "(a)" (.expectedPath "(" .parenOpen ⟨1, 1, 0⟩) ∧
    ∃ t ts, tokenize .path "(a)" = .ok (t :: ts) ∧ t.kind ≠ .name := by
  have hmem : .noRightOperand .or 14 ∈ recorded .filter "a pr and (b pr or not (()))" := by
    decide +kernel
  have hfilter : parseFilter "a pr and (b pr or not (()))"
      = .error (.unexpectedToken "not " .negation ⟨1, 19, 18⟩) := by
    decide +kernel
  have hpath : parsePath "(a)" = .error (.expectedPath "(" .parenOpen ⟨1, 1, 0⟩) := by
    decide +kernel
  refine ⟨⟨hmem, hfilter, ?_⟩, hpath, ?_⟩
  · obtain ⟨-, -, -, hdangling, -⟩ :=
      errors_mean_what_they_say .filter "a pr and (b pr or not (()))"
    obtain ⟨tokens, next, hscan, hnext, hrefuses⟩ := hdangling .or 14 hmem
    obtain ⟨htext, hkind, -⟩ := ParseError.unexpectedToken.inj
      (Except.error.inj (hrefuses.symm.trans hfilter))
    exact ⟨tokens, next, hscan, hnext, htext, hkind⟩
  · obtain ⟨-, -, hexpected, -⟩ := errors_mean_what_they_say .path "(a)"
    obtain ⟨-, t, ts, hscan, hkind, -⟩ := (hexpected _ _ _).mp hpath
    exact ⟨t, ts, hscan, hkind⟩

end Scim
