import Scim.Proofs.Parse.Empty

/-!
# `Scim.Proofs.Parse.Honest`: readers blame the order of tokens

When an expression is read, there is a scan already and it has at least one token. So nothing can be
wrong but the order of the tokens. In the readers other errors can be seen: every body is scanned
again, and an error that goes by the token consumed last calls the text empty if there is none. That
they are never raised is a part of `Honest`. Bodies are scanned without an error because the whole
text was, and there is always a token to blame because a stream without any is never read from.

An operator whose right operand is an empty group or negation is recorded as such, at every depth.
`Honest` also says that this record comes with the error that blames the token behind the operator.

A stream is described by `TokenStream.CutFrom`: its tokens stand together in the text, and there is
one at least. Streams of bodies are of this kind as well, which is why the invariant holds at every
depth. Every reader is honest if it reads expressions honestly (`honest_…`), and
`honest_expression` closes the circle by induction on the weight.

The results are about a stream of all the tokens of a text:

* `honest_filter`, for filters.
* `honest_path`, for paths that start with a name. This is checked before anything is read, and it
  is the only error about a path that is not about the order of tokens.
-/

set_option autoImplicit false

namespace Scim

open Attempt

/-- The errors that are about the order of tokens. -/
def ParseError.isGrammatical : ParseError → Bool
  | .unexpectedEnd | .tokenMismatch _ _ _ _ | .unexpectedToken _ _ _ | .invalidValuePath _ _ => true
  | .unrecognizedInput _ _ | .emptyInput | .expectedPath _ _ _ => false

/-- A logical operator at an offset, and directly behind it the start of a group or a negation. -/
structure Dangling (tokens : List Token) (operator : LogicalOperator) (offset : Nat)
    (next : Token) : Prop where
  adjacent : ∃ before word after, tokens = before ++ word :: next :: after ∧
    word.kind = .logicalOperator ∧ LogicalOperator.read word.text = .ok operator ∧
    word.offset = offset
  kind_next : next.kind = .parenOpen ∨ next.kind = .negation

/-- An attempt that fails only because of the order of the tokens, and at the token behind a logical
operator if that is recorded to have no right operand. -/
structure Honest {α : Type} (source : String) (tokens : List Token) (a : Attempt α) : Prop where
  grammatical : ∀ e, a.outcome = .error e → e.isGrammatical = true
  dangling : ∀ operator offset, .noRightOperand operator offset ∈ a.events →
    ∃ next, Dangling tokens operator offset next ∧
      a.outcome = .error (.unexpectedToken next.text next.kind (Location.locate source next.offset))

variable {source : String} {tokens : List Token}

/-! ### Steps in a row -/

section
variable {α β : Type}

/-- What is recorded by two steps in a row is recorded by one of them, and by the second one only if
the first succeeds. -/
theorem Attempt.mem_events_bind_iff {a : Attempt α} {f : α → Attempt β} {event : Event} :
    event ∈ (a >>= f).events ↔
      event ∈ a.events ∨ ∃ x, a.outcome = .ok x ∧ event ∈ (f x).events := by
  show event ∈ (andThen a f).events ↔ _
  unfold andThen
  cases a.outcome with
  | ok x => simp
  | error e => simp

/-- Nothing is recorded about a missing operand. -/
def Attempt.Quiet (a : Attempt α) : Prop :=
  ∀ operator offset, .noRightOperand operator offset ∉ a.events

/-- A record of something else says nothing about missing operands. -/
theorem quiet_note {event : Event}
    (h : ∀ operator offset, event ≠ .noRightOperand operator offset) :
    (Attempt.note event).Quiet := by
  intro operator offset hmem
  exact h operator offset (List.mem_singleton.mp hmem).symm

/-- Two quiet steps are quiet together. -/
theorem Attempt.Quiet.bind {a : Attempt α} {f : α → Attempt β} (ha : a.Quiet)
    (hf : ∀ x, a.outcome = .ok x → (f x).Quiet) : (a >>= f).Quiet := by
  intro operator offset hmem
  rcases mem_events_bind_iff.mp hmem with hmem | ⟨x, hx, hmem⟩
  · exact ha operator offset hmem
  · exact hf x hx operator offset hmem

/-- Scans record tokens only. -/
theorem quiet_scan {mode : Mode} (text : String) (offset : Nat) (cs : List Char) :
    (scan mode text offset cs).Quiet := by
  unfold scan
  split
  · exact .bind (quiet_note fun _ _ => Event.noConfusion) fun _ _ => fun _ _ => List.not_mem_nil
  · exact .bind (quiet_note fun _ _ => Event.noConfusion) fun _ _ => fun _ _ => List.not_mem_nil

/-- Quiet attempts are honest if their errors are about the order of tokens. -/
theorem Honest.of_quiet {a : Attempt α} (hquiet : a.Quiet)
    (herror : ∀ e, a.outcome = .error e → e.isGrammatical = true) : Honest source tokens a :=
  ⟨herror, fun operator offset hmem => absurd hmem (hquiet operator offset)⟩

/-- Nothing can be wrong with a value that is at hand. -/
theorem honest_pure (x : α) : Honest source tokens (pure x : Attempt α) :=
  .of_quiet (fun _ _ => List.not_mem_nil) fun _ he => by contradiction

/-- A failure is honest if its error is about the order of tokens. -/
theorem honest_fail {e : ParseError} (h : e.isGrammatical = true) :
    Honest source tokens (.fail e : Attempt α) := by
  refine .of_quiet (fun _ _ => List.not_mem_nil) ?_
  intro e' he
  cases he
  exact h

/-- A record of something else is honest. -/
theorem honest_note {event : Event}
    (h : ∀ operator offset, event ≠ .noRightOperand operator offset) :
    Honest source tokens (.note event) :=
  .of_quiet (quiet_note h) fun _ he => by contradiction

/-- Two honest steps are honest together. A missing operand that the first one records is still the
error of both, since the second one is not taken then. -/
theorem honest_bind {a : Attempt α} {f : α → Attempt β} (ha : Honest source tokens a)
    (hf : ∀ x, a.outcome = .ok x → Honest source tokens (f x)) :
    Honest source tokens (a >>= f) := by
  constructor
  · intro e he
    rcases outcome_bind_eq_error_iff.mp he with he | ⟨x, hx, he⟩
    · exact ha.grammatical e he
    · exact (hf x hx).grammatical e he
  · intro operator offset hmem
    rcases mem_events_bind_iff.mp hmem with hmem | ⟨x, hx, hmem⟩
    · obtain ⟨next, hnext, he⟩ := ha.dangling operator offset hmem
      exact ⟨next, hnext, outcome_bind_eq_error_iff.mpr (.inl he)⟩
    · obtain ⟨next, hnext, he⟩ := (hf x hx).dangling operator offset hmem
      exact ⟨next, hnext, outcome_bind_eq_error_iff.mpr (.inr ⟨x, hx, he⟩)⟩

end

/-- A scan that succeeds is honest. -/
theorem honest_scan {mode : Mode} {offset : Nat} {cs : List Char} {ts : List Token}
    (h : tokensFrom mode offset cs = .ok ts) (text : String) :
    Honest source tokens (scan mode text offset cs) :=
  .of_quiet (quiet_scan text offset cs) fun e he => by
    rw [outcome_scan h] at he
    contradiction

/-! ### Streams with a token to blame -/

/-- A stream of consecutive tokens of a text, consumed or not, of which there is one at least. -/
structure TokenStream.CutFrom (source : String) (tokens : List Token) (s : TokenStream) :
    Prop where
  source_eq : s.source = source
  cut : s.rest <:+: tokens
  ne_nil : s.tokens ≠ []

namespace TokenStream

variable {s : TokenStream}

/-- What is left of a stream after some steps is still cut from the text. -/
theorem CutFrom.follow {t : TokenStream} (h : s.CutFrom source tokens) (ht : t.Follows s) :
    t.CutFrom source tokens := by
  refine ⟨ht.source_eq.trans h.source_eq, ht.suffix.isInfix.trans h.cut, ?_⟩
  rw [ht.tokens_eq]
  exact h.ne_nil

/-- All the tokens of a text, if there are some. -/
theorem cutFrom_make (t : Token) (ts : List Token) :
    (TokenStream.make source (t :: ts)).CutFrom source (t :: ts) :=
  ⟨rfl, List.infix_rfl, List.cons_ne_nil t ts⟩

/-- There is a token to blame: the one consumed last, or the first one if there is none. -/
theorem isGrammatical_unexpected (h : s.CutFrom source tokens) :
    s.unexpected.isGrammatical = true := by
  obtain ⟨source', consumed, rest⟩ := s
  cases consumed with
  | cons t consumed => rfl
  | nil =>
      cases rest with
      | cons t rest => rfl
      | nil => exact absurd rfl h.ne_nil

/-- If no token is next, the text has ended. -/
theorem isGrammatical_unexpectedNext : s.unexpectedNext.isGrammatical = true := by
  unfold unexpectedNext
  split <;> rfl

/-- A token of the wrong kind, or none. -/
theorem isGrammatical_of_consume {kinds : List TokenKind} {e : ParseError}
    (he : s.consume kinds = .error e) : e.isGrammatical = true := by
  unfold consume at he
  split at he
  · cases he
    rfl
  · split at he
    · contradiction
    · cases he
      rfl

end TokenStream

/-! ### The readers -/

/-- Tokens that start with a group or a negation. -/
def OpensGroup (ts : List Token) : Prop :=
  ∃ next after, ts = next :: after ∧ (next.kind = .parenOpen ∨ next.kind = .negation)

/-- What is read to no node starts with a group or a negation. -/
theorem opensGroup_of_readsNothing {mode : Mode} {s : TokenStream} {v : Bool}
    (h : ReadsNothing ((Policy.rescanning mode).expression s v)) : OpensGroup s.rest := by
  have hnext : ∀ {kind : TokenKind}, s.isNext [kind] = true →
      ∃ next after, s.rest = next :: after ∧ next.kind = kind := by
    intro kind hkind
    unfold TokenStream.isNext TokenStream.peek? at hkind
    cases hrest : s.rest with
    | nil => simp [hrest] at hkind
    | cons t ts => exact ⟨t, ts, rfl, by simpa [hrest] using hkind⟩
  rw [Policy.expression] at h
  obtain ⟨first, hfirst, h⟩ := readsNothing_bind_iff.mp h
  -- An expression is empty only if its first operand is.
  have hnone : first.value = none := by
    cases hvalue : first.value with
    | none => rfl
    | some left =>
        simp only [hvalue] at h
        split at h
        · simp [readsNothing_bind_iff, readsNothing_pure_iff, Step.map, Step.andThen] at h
        · simp [readsNothing_pure_iff, hvalue] at h
  unfold Reading.primary at hfirst
  by_cases hopen : s.isNext [.parenOpen] = true
  · obtain ⟨next, after, hrest, hkind⟩ := hnext hopen
    exact ⟨next, after, hrest, .inl hkind⟩
  · rw [if_neg hopen] at hfirst
    by_cases hnot : s.isNext [.negation] = true
    · obtain ⟨next, after, hrest, hkind⟩ := hnext hnot
      exact ⟨next, after, hrest, .inr hkind⟩
    · rw [if_neg hnot] at hfirst
      split at hfirst
      · obtain ⟨node, -, hnode⟩ := outcome_bind_eq_ok_iff.mp hfirst
        cases hnode
        contradiction
      · contradiction

section
variable {s : TokenStream}

/-- Taking a token is honest. -/
theorem honest_takeToken (kinds : List TokenKind) : Honest source tokens (takeToken kinds s) := by
  unfold takeToken
  split
  · exact honest_pure _
  · next he => exact honest_fail (TokenStream.isGrammatical_of_consume he)

/-- Finding the end of a group is honest. -/
theorem honest_takeGroup : Honest source tokens (takeGroup s) := by
  unfold takeGroup
  split
  · next he => exact honest_fail (TokenStream.isGrammatical_of_consume he)
  · split
    · exact honest_fail rfl
    · exact honest_pure _

/-- Comparisons are honest, of whatever tokens: none of their errors depends on the scan. -/
theorem honest_comparison {mode : Mode} (path : AttributePath) :
    Honest source tokens ((Policy.rescanning mode).operations.comparison path s) := by
  unfold Operations.comparison
  refine honest_bind (honest_takeToken _) fun word _ => ?_
  split
  · exact honest_fail rfl
  · split
    · exact honest_pure _
    · refine honest_bind (honest_takeToken _) fun literal _ => ?_
      rw [Policy.operations_literal?, pure_bind]
      split
      · exact honest_fail rfl
      · exact honest_pure _

variable {read : Lighter Attempt s}

/-- A way to read expressions that is honest about the tokens, and that reads nothing only where a
group or a negation starts. -/
structure ReadsHonestly (source : String) (tokens : List Token) (s : TokenStream)
    (read : Lighter Attempt s) : Prop where
  honest : ∀ t ht v, t.CutFrom source tokens → Honest source tokens (read t ht v)
  opensGroup : ∀ t ht v, ReadsNothing (read t ht v) → OpensGroup t.rest

/-- What holds of all lighter streams holds of those lighter than the rest. -/
theorem ReadsHonestly.follow (h : ReadsHonestly source tokens s read) {t : TokenStream}
    (ht : t.Follows s) :
    ReadsHonestly source tokens t fun u hu => read u (Nat.lt_trans hu ht.lighter) :=
  ⟨fun u _ v hu => h.honest u _ v hu, fun u _ v hu => h.opensGroup u _ v hu⟩

/-- A body is scanned without an error, as it is part of a scan. -/
theorem honest_readBody {mode : Mode} (hscan : Scanned mode tokens) (h : s.CutFrom source tokens)
    (hread : ReadsHonestly source tokens s read) {group : Group s} (hbody : group.body ≠ [])
    (inValuePath : Bool) :
    Honest source tokens (readBody mode s read group inValuePath) := by
  have htokens := group.tokensFrom_body (hscan.of_infix h.cut)
  have hcut : (TokenStream.make s.source group.body).CutFrom source tokens :=
    ⟨h.source_eq, group.body_isInfix.trans h.cut, hbody⟩
  unfold readBody
  refine honest_bind (honest_scan htokens _) fun inner hinner => ?_
  rw [outcome_scan htokens] at hinner
  cases hinner
  exact honest_bind (hread.honest _ _ _ hcut) fun _ _ => honest_pure _

/-- A group is honest. Its body is scanned again, unless it is empty. -/
theorem honest_enclosed {mode : Mode} (hscan : Scanned mode tokens) (h : s.CutFrom source tokens)
    (hread : ReadsHonestly source tokens s read) {empty : Nat → Event}
    (hempty : ∀ n operator offset, empty n ≠ .noRightOperand operator offset) (inValuePath : Bool) :
    Honest source tokens ((Policy.rescanning mode).enclosed s read empty inValuePath) := by
  unfold Policy.enclosed
  refine honest_bind honest_takeGroup fun group _ => ?_
  split
  · exact honest_bind (honest_note (hempty _)) fun _ _ => honest_pure _
  · next hbody =>
      exact honest_bind (honest_readBody hscan h hread hbody inValuePath) fun _ _ => honest_pure _

/-- A negation is honest, which is a group behind its keyword. -/
theorem honest_negation {mode : Mode} (hscan : Scanned mode tokens) (h : s.CutFrom source tokens)
    (hread : ReadsHonestly source tokens s read) (inValuePath : Bool) :
    Honest source tokens (((Policy.rescanning mode).reading s read).negation inValuePath) := by
  unfold Reading.negation
  refine honest_bind (honest_takeToken _) fun word _ => ?_
  exact honest_bind (honest_enclosed hscan (h.follow word.follows) (hread.follow word.follows)
    (fun _ _ _ => Event.noConfusion) inValuePath) fun _ _ => honest_pure _

/-- The bracket has been consumed, so there is a token to blame for the predicate. -/
theorem honest_valuePath {mode : Mode} (h : s.CutFrom source tokens)
    (hread : ReadsHonestly source tokens s read) (collection : AttributePath) :
    Honest source tokens (((Policy.rescanning mode).reading s read).valuePath collection) := by
  unfold Reading.valuePath
  refine honest_bind (honest_takeToken _) fun bracket hbracket => ?_
  refine honest_bind (hread.honest _ _ _ (h.follow bracket.follows)) fun predicate _ => ?_
  refine honest_bind (honest_takeToken _) fun closing _ => ?_
  split
  · refine honest_bind (honest_note fun _ _ => Event.noConfusion) fun _ _ => honest_fail ?_
    show bracket.rest.invalidValuePath.isGrammatical = true
    rw [TokenStream.invalidValuePath, current?_of_takeToken hbracket]
    rfl
  · exact honest_pure _

/-- What starts with a name is honest, a comparison or a value path. -/
theorem honest_named {mode : Mode} (h : s.CutFrom source tokens)
    (hread : ReadsHonestly source tokens s read) (inValuePath : Bool) :
    Honest source tokens (((Policy.rescanning mode).reading s read).named inValuePath) := by
  unfold Reading.named
  refine honest_bind (honest_takeToken _) fun name _ => ?_
  have hafter := h.follow name.follows
  rw [Policy.reading_toOperations, Policy.operations_pathOf, pure_bind]
  split
  · split
    · exact honest_fail (TokenStream.isGrammatical_unexpected hafter)
    · exact honest_bind (honest_valuePath hafter (hread.follow name.follows) _)
        fun _ _ => honest_pure _
  · exact honest_bind (honest_comparison _) fun _ _ => honest_pure _

/-- An operand is honest. -/
theorem honest_primary {mode : Mode} (hscan : Scanned mode tokens)
    (h : s.CutFrom source tokens) (hread : ReadsHonestly source tokens s read)
    (inValuePath : Bool) :
    Honest source tokens (((Policy.rescanning mode).reading s read).primary inValuePath) := by
  unfold Reading.primary
  split
  · exact honest_enclosed hscan h hread (fun _ _ _ => Event.noConfusion) false
  · split
    · exact honest_negation hscan h hread inValuePath
    · split
      · exact honest_bind (honest_named h hread inValuePath) fun _ _ => honest_pure _
      · exact honest_fail (TokenStream.isGrammatical_unexpected h)

/-- The error for an operator without a right operand blames the token behind it. -/
theorem unexpected_advance {next : Token} {after : List Token} (h : s.rest = next :: after) :
    s.advance.unexpected
      = .unexpectedToken next.text next.kind (Location.locate s.source next.offset) := by
  unfold TokenStream.advance
  rw [h]
  rfl

/-- The rest of an expression, from its logical operator on, is honest. This is the one place where
a missing operand is recorded, and the right operand is missing only if a group or a negation starts
behind the operator. -/
theorem honest_connective {mode : Mode} (h : s.CutFrom source tokens)
    (hread : ReadsHonestly source tokens s read) (left : Node) (inValuePath : Bool) :
    Honest source tokens
      (((Policy.rescanning mode).reading s read).connective left inValuePath) := by
  unfold Reading.connective
  refine honest_bind (honest_takeToken _) fun word hword => ?_
  have hafter := h.follow word.follows
  split
  · exact honest_fail rfl
  · next operator hoperator =>
      refine honest_bind (hread.honest _ _ _ hafter) fun right hright => ?_
      split
      · next hnone =>
          obtain ⟨next, after, hnext, hkind⟩ :=
            hread.opensGroup _ _ inValuePath ⟨right, hright, hnone⟩
          obtain ⟨hrest, hlogical⟩ := rest_of_takeToken hword
          have herror := unexpected_advance hnext
          rw [hafter.source_eq] at herror
          rw [Policy.reading_toOperations, Policy.operations_note, Policy.operations_refuse,
            Policy.rescanning_error, TokenStream.error, herror]
          constructor
          · intro e he
            cases he
            rfl
          · intro operator' offset hmem
            -- The record is the one that has just been made.
            have hevent : Event.noRightOperand operator' offset
                = .noRightOperand operator word.value.offset := by
              simpa [mem_events_bind_iff, Attempt.note, Attempt.fail] using hmem
            cases hevent
            obtain ⟨before, behind, htokens⟩ := h.cut
            rw [hrest, hnext] at htokens
            have hadjacent : tokens = before ++ word.value :: next :: (after ++ behind) := by
              rw [← htokens]
              simp
            have hlogical : word.value.kind = .logicalOperator := by simpa using hlogical
            exact ⟨next, ⟨⟨before, word.value, after ++ behind, hadjacent, hlogical, hoperator,
              rfl⟩, hkind⟩, rfl⟩
      · exact honest_pure _

end

/-- Whatever is wrong in an expression, at whatever depth, it is the order of the tokens. -/
theorem honest_expression {mode : Mode} {s : TokenStream} (hscan : Scanned mode tokens)
    (h : s.CutFrom source tokens) (inValuePath : Bool) :
    Honest source tokens ((Policy.rescanning mode).expression s inValuePath) := by
  induction hw : s.weight using Nat.strongRecOn generalizing s inValuePath with
  | ind w ih =>
      subst hw
      have hread : ReadsHonestly source tokens s
          fun t _ => (Policy.rescanning mode).expression t :=
        ⟨fun t ht v hcut => ih t.weight ht hcut v rfl, fun t _ v => opensGroup_of_readsNothing⟩
      rw [Policy.expression]
      refine honest_bind (honest_primary hscan h hread inValuePath) fun first _ => ?_
      split
      · exact honest_pure _
      · split
        · exact honest_bind (honest_connective (h.follow first.follows)
            (hread.follow first.follows) _ inValuePath) fun _ _ => honest_pure _
        · exact honest_pure _

/-- A sub-attribute is honest. -/
theorem honest_withSubAttribute {mode : Mode} {s : TokenStream} (v : ValuePath) :
    Honest source tokens ((Policy.rescanning mode).operations.withSubAttribute v s) := by
  unfold Operations.withSubAttribute
  split
  · exact honest_bind (honest_takeToken _) fun _ _ => honest_pure _
  · exact honest_pure _

/-! ### Filters and paths -/

section
variable {mode : Mode} {s : TokenStream} (hscan : Scanned mode tokens)
  (h : s.CutFrom source tokens)
include hscan h

/-- Filters are honest. -/
theorem honest_filter {input : String} :
    Honest source tokens (((Policy.rescanning mode).parser.reading s).filter input) := by
  have hexpression := honest_expression hscan h false
  rw [Policy.expression] at hexpression
  refine honest_bind hexpression fun step _ => ?_
  split
  · refine honest_bind (honest_pure _) fun _ _ => ?_
    exact honest_bind (honest_note fun _ _ => Event.noConfusion) fun _ _ => honest_pure _
  · exact honest_pure _

/-- The one error about a path that is not about the order of tokens is for what does not start with
a name. -/
theorem honest_path (hname : s.isNext [.name] = true) :
    Honest source tokens ((Policy.rescanning mode).parser.reading s).path := by
  have hread : ReadsHonestly source tokens s fun t _ => (Policy.rescanning mode).expression t :=
    ⟨fun t _ v ht => honest_expression hscan ht v, fun t _ v => opensGroup_of_readsNothing⟩
  unfold Reading.path
  rw [if_neg (by simp [hname])]
  refine honest_bind (honest_takeToken _) fun name _ => ?_
  have hafter := h.follow name.follows
  rw [Policy.parser_reading, Policy.reading_toOperations, Policy.operations_pathOf, pure_bind]
  split
  · exact honest_pure _
  split
  · exact honest_fail TokenStream.isGrammatical_unexpectedNext
  split
  · exact honest_fail (TokenStream.isGrammatical_unexpected hafter)
  refine honest_bind (honest_valuePath hafter (hread.follow name.follows) _) fun step _ => ?_
  refine honest_bind (honest_withSubAttribute _) fun found _ => ?_
  dsimp only
  split
  · exact honest_fail TokenStream.isGrammatical_unexpectedNext
  · exact honest_pure _

end

end Scim
