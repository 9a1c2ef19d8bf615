import Scim.Proofs.Location
import Scim.Proofs.Parse.Accepted

/-!
# `Scim.Proofs.Parse.Refusals`: where errors point

An error that is raised while a body is read must still point into the whole text. Streams of bodies
start anew: their cursor is at zero, and an error that goes by the cursor sees only the tokens of
the body. But these are tokens of the whole scan, with the offsets they have there.

`PointsInto` says that an error is made from a token of a list. It holds of the errors of a stream
(`TokenStream.pointsInto_…`), and every reader passes it on: there is one lemma `failsInto_…` for
each, and `failsInto_expression` closes the circle by induction on the weight. This is done for the
readers that cut bodies out of the scan (`Policy.slicing`), where no second scan can fail.

A text is refused in one of two ways (`lexical_or_pointsInto_of_refuses`):

* The scan stops. Then the error quotes the text from that place on (`outcome_scan_eq_error`).
* The scan does not stop. Then the error points at a token, and the text in front of a token is as
  long as its offset says (`parts_of_mem_tokensFrom`).

Either way the place is at a boundary of characters with the quoted text behind it, by
`locate_between`. The result is `location_of_refused`.
-/

set_option autoImplicit false

namespace Scim

open Attempt

/-- An error that has no place, or that is made from one of these tokens and its place. -/
inductive PointsInto (source : String) (tokens : List Token) : ParseError → Prop where
  | unexpectedEnd : PointsInto source tokens .unexpectedEnd
  | emptyInput : PointsInto source tokens .emptyInput
  | tokenMismatch {t : Token} (h : t ∈ tokens) (expected : List TokenKind) :
    PointsInto source tokens
      (.tokenMismatch t.text t.kind expected (Location.locate source t.offset))
  | unexpectedToken {t : Token} (h : t ∈ tokens) :
    PointsInto source tokens (.unexpectedToken t.text t.kind (Location.locate source t.offset))
  | invalidValuePath {t : Token} (h : t ∈ tokens) (hkind : t.kind = .bracketOpen) :
    PointsInto source tokens (.invalidValuePath t.text (Location.locate source t.offset))
  | expectedPath {t : Token} (h : t ∈ tokens) :
    PointsInto source tokens (.expectedPath t.text t.kind (Location.locate source t.offset))

/-- A stream of some of the tokens of a text. -/
structure TokenStream.PartOf (source : String) (tokens : List Token) (s : TokenStream) : Prop where
  source_eq : s.source = source
  subset : s.tokens ⊆ tokens

/-- An attempt whose failures point into these tokens. -/
def FailsInto {α : Type} (source : String) (tokens : List Token) (a : Attempt α) : Prop :=
  ∀ e, a.outcome = .error e → PointsInto source tokens e

variable {source : String} {tokens : List Token}

/-! ### The errors of a stream -/

namespace TokenStream

variable {s : TokenStream}

namespace PartOf

/-- What is left of a stream after some steps has the same tokens. -/
theorem follow {t : TokenStream} (h : s.PartOf source tokens) (ht : t.Follows s) :
    t.PartOf source tokens := by
  refine ⟨ht.source_eq.trans h.source_eq, ?_⟩
  rw [ht.tokens_eq]
  exact h.subset

/-- A consumed token is one of the text. -/
theorem mem_of_consumed {t : Token} (h : s.PartOf source tokens) (ht : t ∈ s.consumed) :
    t ∈ tokens :=
  h.subset (List.mem_append_left _ (List.mem_reverse.mpr ht))

/-- A token that is left is one of the text. -/
theorem mem_of_rest {t : Token} (h : s.PartOf source tokens) (ht : t ∈ s.rest) : t ∈ tokens :=
  h.subset (List.mem_append_right _ ht)

/-- A token that is taken is one of the text. -/
theorem mem_of_takeToken {kinds : List TokenKind} {step : Step s Token}
    (h : s.PartOf source tokens) (hstep : (takeToken kinds s).outcome = .ok step) :
    step.value ∈ tokens := by
  apply h.mem_of_rest
  rw [(rest_of_takeToken hstep).1]
  exact List.mem_cons_self

/-- Moving the cursor keeps the tokens. -/
theorem advance (h : s.PartOf source tokens) : s.advance.PartOf source tokens := by
  unfold TokenStream.advance
  split
  · exact h
  · next t ts hrest =>
      refine ⟨h.source_eq, ?_⟩
      -- The token has moved over the cursor.
      have htokens : (⟨s.source, t :: s.consumed, ts⟩ : TokenStream).tokens = s.tokens := by
        simp [TokenStream.tokens, hrest]
      rw [htokens]
      exact h.subset

end PartOf

variable (h : s.PartOf source tokens)

include h

/-- An error at a given token points at it. -/
theorem pointsInto_unexpectedAt {t : Token} (ht : t ∈ tokens) :
    PointsInto source tokens (s.unexpectedAt t) := by
  unfold unexpectedAt locationOf
  rw [h.source_eq]
  exact .unexpectedToken ht

/-- The error at the current token points at one of the text, also if the cursor has to be moved
first. -/
theorem pointsInto_unexpected : PointsInto source tokens s.unexpected := by
  have hstarted : s.started.PartOf source tokens := by
    unfold started
    split
    · exact h.advance
    · exact h
  unfold unexpected
  split
  · next t ht => exact pointsInto_unexpectedAt h (hstarted.mem_of_consumed (List.mem_of_head? ht))
  · exact .emptyInput

/-- The error at the next token points at one of the text. -/
theorem pointsInto_unexpectedNext : PointsInto source tokens s.unexpectedNext := by
  unfold unexpectedNext
  split
  · next t ht => exact pointsInto_unexpectedAt h (h.mem_of_rest (List.mem_of_head? ht))
  · exact .unexpectedEnd

/-- The error for what is no path points at the first token. -/
theorem pointsInto_expectedPath : PointsInto source tokens s.expectedPath := by
  unfold expectedPath locationOf
  rw [h.source_eq]
  split
  · next t ht => exact .expectedPath (h.mem_of_rest (List.mem_of_head? ht))
  · exact .emptyInput

/-- The error for a predicate that is not allowed points at the token consumed last, if that is a
bracket. -/
theorem pointsInto_invalidValuePath (hkind : ∀ t ∈ s.current?, t.kind = .bracketOpen) :
    PointsInto source tokens s.invalidValuePath := by
  unfold invalidValuePath locationOf
  rw [h.source_eq]
  split
  · next t ht =>
      exact .invalidValuePath (h.mem_of_consumed (List.mem_of_head? ht)) (hkind t ht)
  · exact .emptyInput

/-- The error for a token of the wrong kind points at it. -/
theorem pointsInto_of_consume {kinds : List TokenKind} {e : ParseError}
    (he : s.consume kinds = .error e) : PointsInto source tokens e := by
  unfold consume locationOf at he
  rw [h.source_eq] at he
  split at he
  · cases he
    exact .unexpectedEnd
  · next t ts hrest =>
      split at he
      · contradiction
      · cases he
        exact .tokenMismatch (h.mem_of_rest (by simp [hrest])) kinds

end TokenStream

/-! ### Steps in a row -/

section
variable {α β : Type}

/-- A value that is at hand is no failure. -/
theorem failsInto_pure (x : α) : FailsInto source tokens (pure x : Attempt α) := by
  intro e he
  contradiction

/-- A record is no failure. -/
theorem failsInto_note (event : Event) : FailsInto source tokens (.note event) := by
  intro e he
  contradiction

/-- A failure points into the text if its error does. -/
theorem failsInto_fail {e : ParseError} (h : PointsInto source tokens e) :
    FailsInto source tokens (.fail e : Attempt α) := by
  intro e' he
  cases he
  exact h

/-- Two steps in a row fail as one of them does. -/
theorem failsInto_bind {a : Attempt α} {f : α → Attempt β} (ha : FailsInto source tokens a)
    (hf : ∀ x, a.outcome = .ok x → FailsInto source tokens (f x)) :
    FailsInto source tokens (a >>= f) := by
  intro e he
  rcases outcome_bind_eq_error_iff.mp he with he | ⟨x, hx, he⟩
  · exact ha e he
  · exact hf x hx e he

end

/-! ### The readers -/

section
variable {s : TokenStream}

/-- Taking a token fails at that token. -/
theorem failsInto_takeToken (h : s.PartOf source tokens) (kinds : List TokenKind) :
    FailsInto source tokens (takeToken kinds s) := by
  unfold takeToken
  split
  · exact failsInto_pure _
  · next e he => exact failsInto_fail (TokenStream.pointsInto_of_consume h he)

/-- A group fails at the token that should open it, or because the text ends. -/
theorem failsInto_takeGroup (h : s.PartOf source tokens) :
    FailsInto source tokens (takeGroup s) := by
  unfold takeGroup
  split
  · next e he => exact failsInto_fail (TokenStream.pointsInto_of_consume h he)
  · split
    · exact failsInto_fail .unexpectedEnd
    · exact failsInto_pure _

/-- A comparison fails at its operator or at its literal. -/
theorem failsInto_comparison (h : s.PartOf source tokens) (path : AttributePath) :
    FailsInto source tokens (Policy.slicing.operations.comparison path s) := by
  unfold Operations.comparison
  refine failsInto_bind (failsInto_takeToken h _) fun word hword => ?_
  have hafter := h.follow word.follows
  split
  · exact failsInto_fail (TokenStream.pointsInto_unexpectedAt h (h.mem_of_takeToken hword))
  · split
    · exact failsInto_pure _
    · refine failsInto_bind (failsInto_takeToken hafter _) fun literal hliteral => ?_
      rw [Policy.operations_literal?, pure_bind]
      split
      · exact failsInto_fail
          (TokenStream.pointsInto_unexpectedAt h (hafter.mem_of_takeToken hliteral))
      · exact failsInto_pure _

variable {read : Lighter Attempt s}

/-- A way to read expressions whose failures point into these tokens. -/
def ReadsInto (source : String) (tokens : List Token) (s : TokenStream)
    (read : Lighter Attempt s) : Prop :=
  ∀ t ht v, t.PartOf source tokens → FailsInto source tokens (read t ht v)

/-- What holds of all lighter streams holds of those lighter than the rest. -/
theorem ReadsInto.follow (h : ReadsInto source tokens s read) {t : TokenStream}
    (ht : t.Follows s) :
    ReadsInto source tokens t fun u hu => read u (Nat.lt_trans hu ht.lighter) :=
  fun u _ v hu => h u _ v hu

/-- A group fails as its body does. -/
theorem failsInto_enclosed (h : s.PartOf source tokens) (hread : ReadsInto source tokens s read)
    (empty : Nat → Event) (inValuePath : Bool) :
    FailsInto source tokens (Policy.slicing.enclosed s read empty inValuePath) := by
  unfold Policy.enclosed
  refine failsInto_bind (failsInto_takeGroup h) fun group _ => ?_
  split
  · exact failsInto_bind (failsInto_note _) fun _ _ => failsInto_pure _
  · -- The stream of a body starts anew, with tokens that are those of the group.
    have hbody : (TokenStream.make s.source group.body).PartOf source tokens :=
      ⟨h.source_eq, fun t ht => h.mem_of_rest (group.body_isInfix.subset ht)⟩
    have hslice : FailsInto source tokens (sliceBody s read group inValuePath) :=
      failsInto_bind (hread _ _ _ hbody) fun _ _ => failsInto_pure _
    exact failsInto_bind hslice fun _ _ => failsInto_pure _

/-- A negation fails as its group does. -/
theorem failsInto_negation (h : s.PartOf source tokens) (hread : ReadsInto source tokens s read)
    (inValuePath : Bool) :
    FailsInto source tokens ((Policy.slicing.reading s read).negation inValuePath) := by
  refine failsInto_bind (failsInto_takeToken h _) fun word _ => ?_
  exact failsInto_bind (failsInto_enclosed (h.follow word.follows) (hread.follow word.follows) _ _)
    fun _ _ => failsInto_pure _

/-- The predicate is refused at its bracket, which is the token consumed last. -/
theorem failsInto_valuePath (h : s.PartOf source tokens)
    (hread : ReadsInto source tokens s read) (collection : AttributePath) :
    FailsInto source tokens ((Policy.slicing.reading s read).valuePath collection) := by
  unfold Reading.valuePath
  refine failsInto_bind (failsInto_takeToken h _) fun bracket hbracket => ?_
  have hinner := h.follow bracket.follows
  refine failsInto_bind (hread _ _ _ hinner) fun predicate _ => ?_
  have hbehind := hinner.follow predicate.follows
  refine failsInto_bind (failsInto_takeToken hbehind _) fun closing _ => ?_
  split
  · refine failsInto_bind (failsInto_note _) fun _ _ => ?_
    refine failsInto_fail (TokenStream.pointsInto_invalidValuePath hinner ?_)
    intro t ht
    rw [current?_of_takeToken hbracket] at ht
    cases ht
    simpa using (rest_of_takeToken hbracket).2
  · exact failsInto_pure _

/-- What starts with a name fails as a comparison or as a value path, or at the bracket behind a
name with a dot. -/
theorem failsInto_named (h : s.PartOf source tokens) (hread : ReadsInto source tokens s read)
    (inValuePath : Bool) :
    FailsInto source tokens ((Policy.slicing.reading s read).named inValuePath) := by
  unfold Reading.named
  refine failsInto_bind (failsInto_takeToken h _) fun name _ => ?_
  have hafter := h.follow name.follows
  rw [Policy.reading_toOperations, Policy.operations_pathOf, pure_bind]
  split
  · split
    · exact failsInto_fail (TokenStream.pointsInto_unexpected hafter)
    · exact failsInto_bind (failsInto_valuePath hafter (hread.follow name.follows) _)
        fun _ _ => failsInto_pure _
  · exact failsInto_bind (failsInto_comparison hafter _) fun _ _ => failsInto_pure _

/-- An operand fails as its kind does, or at the token that starts none. -/
theorem failsInto_primary (h : s.PartOf source tokens) (hread : ReadsInto source tokens s read)
    (inValuePath : Bool) :
    FailsInto source tokens ((Policy.slicing.reading s read).primary inValuePath) := by
  unfold Reading.primary
  split
  · exact failsInto_enclosed h hread _ false
  · split
    · exact failsInto_negation h hread inValuePath
    · split
      · exact failsInto_bind (failsInto_named h hread inValuePath) fun _ _ => failsInto_pure _
      · exact failsInto_fail (TokenStream.pointsInto_unexpected h)

/-- The rest of an expression fails at its operator, as its right operand does, or at the token
behind the operator. -/
theorem failsInto_connective (h : s.PartOf source tokens)
    (hread : ReadsInto source tokens s read) (left : Node) (inValuePath : Bool) :
    FailsInto source tokens ((Policy.slicing.reading s read).connective left inValuePath) := by
  unfold Reading.connective
  refine failsInto_bind (failsInto_takeToken h _) fun word hword => ?_
  have hafter := h.follow word.follows
  split
  · exact failsInto_fail (TokenStream.pointsInto_unexpectedAt h (h.mem_of_takeToken hword))
  · refine failsInto_bind (hread _ _ _ hafter) fun right _ => ?_
    split
    · refine failsInto_bind (failsInto_note _) fun _ _ => ?_
      exact failsInto_fail (TokenStream.pointsInto_unexpected hafter.advance)
    · exact failsInto_pure _

end

/-- Whatever is wrong in an expression, at whatever depth, the error points at one of its tokens. -/
theorem failsInto_expression {s : TokenStream} (h : s.PartOf source tokens)
    (inValuePath : Bool) : FailsInto source tokens (Policy.slicing.expression s inValuePath) := by
  induction hw : s.weight using Nat.strongRecOn generalizing s inValuePath with
  | ind w ih =>
      subst hw
      -- What the readers ask of lighter streams is the induction hypothesis.
      have hread : ReadsInto source tokens s fun t _ => Policy.slicing.expression t :=
        fun t ht v hpart => ih t.weight ht hpart v rfl
      rw [Policy.expression]
      refine failsInto_bind (failsInto_primary h hread inValuePath) fun first _ => ?_
      split
      · exact failsInto_pure _
      · split
        · exact failsInto_bind (failsInto_connective (h.follow first.follows)
            (hread.follow first.follows) _ inValuePath) fun _ _ => failsInto_pure _
        · exact failsInto_pure _

/-- A sub-attribute fails at its token. -/
theorem failsInto_withSubAttribute {s : TokenStream} (h : s.PartOf source tokens)
    (v : ValuePath) : FailsInto source tokens (Policy.slicing.operations.withSubAttribute v s) := by
  unfold Operations.withSubAttribute
  split
  · exact failsInto_bind (failsInto_takeToken h _) fun _ _ => failsInto_pure _
  · exact failsInto_pure _

/-- Behind a sub-attribute the stream still has the tokens of the text. -/
theorem partOf_of_withSubAttribute {s t : TokenStream} {v w : ValuePath}
    (h : s.PartOf source tokens)
    (ht : (Policy.slicing.operations.withSubAttribute v s).outcome = .ok (w, t)) :
    t.PartOf source tokens := by
  unfold Operations.withSubAttribute at ht
  split at ht
  · obtain ⟨sub, -, ht⟩ := outcome_bind_eq_ok_iff.mp ht
    cases ht
    exact h.follow sub.follows
  · cases ht
    exact h

/-- A path is an expression at most at one place, the predicate. -/
theorem failsInto_path {s : TokenStream} (h : s.PartOf source tokens) :
    FailsInto source tokens (Policy.slicing.parser.reading s).path := by
  have hread : ReadsInto source tokens s fun t _ => Policy.slicing.expression t :=
    fun t _ v ht => failsInto_expression ht v
  unfold Reading.path
  split
  · exact failsInto_fail (TokenStream.pointsInto_expectedPath h)
  refine failsInto_bind (failsInto_takeToken h _) fun name _ => ?_
  have hafter := h.follow name.follows
  rw [Policy.parser_reading, Policy.reading_toOperations, Policy.operations_pathOf, pure_bind]
  split
  · exact failsInto_pure _
  split
  · exact failsInto_fail (TokenStream.pointsInto_unexpectedNext hafter)
  split
  · exact failsInto_fail (TokenStream.pointsInto_unexpected hafter)
  refine failsInto_bind (failsInto_valuePath hafter (hread.follow name.follows) _) fun step _ => ?_
  have hbehind := hafter.follow step.follows
  refine failsInto_bind (failsInto_withSubAttribute hbehind _) ?_
  rintro ⟨v, rest⟩ hrest
  dsimp only
  split
  · exact failsInto_fail
      (TokenStream.pointsInto_unexpectedNext (partOf_of_withSubAttribute hbehind hrest))
  · exact failsInto_pure _

/-! ### Scanning -/

/-- Where no token starts, there is still something to read. -/
theorem parts_of_tokensFrom_eq_error {mode : Mode} {offset place : Nat} {cs rest : List Char}
    (h : tokensFrom mode offset cs = .error (place, rest)) :
    ∃ before, cs = before ++ rest ∧ place = offset + String.utf8Len before ∧ rest ≠ [] := by
  obtain ⟨ts, hscan, hplace, hrest, -⟩ := tokensFrom_eq_error_iff.mp h
  exact ⟨Token.charsOf ts, hscan.charsOf_append.symm, hplace, hrest⟩

/-- Where a scan stops, its error quotes what follows, cut off, and gives the place. -/
theorem outcome_scan_eq_error {mode : Mode} {offset : Nat} {cs : List Char} {e : ParseError}
    (h : (scan mode source offset cs).outcome = .error e) :
    ∃ before rest, cs = before ++ rest ∧ rest ≠ [] ∧
      e = .unrecognizedInput (String.ofList (rest.take fragmentLength))
        (Location.locate source (offset + String.utf8Len before)) := by
  unfold scan at h
  split at h
  · simp [Except.bind] at h
  · next place rest hfrom =>
      obtain ⟨before, rfl, rfl, hrest⟩ := parts_of_tokensFrom_eq_error hfrom
      have he : ParseError.unrecognizedInput (String.ofList (rest.take fragmentLength))
          (Location.locate source (offset + String.utf8Len before)) = e := by
        simpa [Except.bind] using h
      exact ⟨before, rest, rfl, hrest, he.symm⟩

/-- A token of a scan is a part of the text, which starts at its offset. -/
theorem parts_of_mem_tokensFrom {mode : Mode} {cs : List Char} {ts : List Token} {t : Token}
    (h : tokensFrom mode 0 cs = .ok ts) (ht : t ∈ ts) :
    ∃ before after, cs = before ++ (t.text.toList ++ after) ∧ t.offset = String.utf8Len before ∧
      t.text.toList ≠ [] := by
  have hscanned := scanned_of_tokensFrom h
  obtain ⟨us, ws, rfl⟩ := List.append_of_mem ht
  have hscan := tokensFrom_eq_ok_iff.mp h
  refine ⟨Token.charsOf us, Token.charsOf ws, ?_, ?_, ?_⟩
  · rw [← hscan.charsOf_append]
    simp
  · rw [hscan.offset_eq, Nat.zero_add]
  · obtain ⟨rest, -, hlex⟩ := hscanned.right.first
    exact (lexeme?_splits hlex).2

/-! ### Refused texts -/

/-- A text is refused for a reason, as a filter or as a path. -/
def Refuses : Mode → String → ParseError → Prop
  | .filter, input, e => parseFilter input = .error e
  | .path, input, e => parsePath input = .error e

/-- Either the scan stops, or the error points at a token of it. -/
theorem lexical_or_pointsInto {α : Type} {mode : Mode} {input : String} {e : ParseError}
    {f : { s : TokenStream // s.weight ≤ input.toList.length } → Attempt α}
    (hf : ∀ ts hts, (TokenStream.make input ts).PartOf input ts →
      FailsInto input ts (f ⟨.make input ts, hts⟩))
    (h : (scan mode input 0 input.toList >>= f).outcome = .error e) :
    (∃ before rest, input.toList = before ++ rest ∧ rest ≠ [] ∧
      e = .unrecognizedInput (String.ofList (rest.take fragmentLength))
        (Location.locate input (String.utf8Len before))) ∨
    ∃ ts, tokensFrom mode 0 input.toList = .ok ts ∧ PointsInto input ts e := by
  rcases outcome_bind_eq_error_iff.mp h with h | ⟨s, hs, h⟩
  · obtain ⟨before, rest, hparts, hrest, he⟩ := outcome_scan_eq_error h
    rw [Nat.zero_add] at he
    exact .inl ⟨before, rest, hparts, hrest, he⟩
  · obtain ⟨ts, htokens⟩ : ∃ ts, tokensFrom mode 0 input.toList = .ok ts :=
      ⟨_, tokensFrom_of_scan hs⟩
    rw [outcome_scan htokens input] at hs
    cases hs
    exact .inr ⟨ts, htokens, hf ts _ ⟨rfl, List.Subset.refl ts⟩ e h⟩

/-- A text that is refused is refused in one of two ways, as a filter or as a path. -/
theorem lexical_or_pointsInto_of_refuses {mode : Mode} {input : String} {e : ParseError}
    (h : Refuses mode input e) :
    (∃ before rest, input.toList = before ++ rest ∧ rest ≠ [] ∧
      e = .unrecognizedInput (String.ofList (rest.take fragmentLength))
        (Location.locate input (String.utf8Len before))) ∨
    ∃ ts, tokensFrom mode 0 input.toList = .ok ts ∧ PointsInto input ts e := by
  cases mode with
  | filter =>
      have h : parseFilter input = .error e := h
      rw [parseFilter_eq_slices] at h
      refine lexical_or_pointsInto (fun ts hts hpart => ?_) h
      exact failsInto_bind (failsInto_expression hpart false) fun _ _ => failsInto_pure _
  | path =>
      have h : parsePath input = .error e := h
      rw [parsePath_eq_slices] at h
      exact lexical_or_pointsInto (fun ts hts hpart => failsInto_path hpart) h

/-- What an error with a place says of its token. -/
theorem PointsInto.token {e : ParseError} {l : Location} (h : PointsInto source tokens e)
    (hl : e.location? = some l) :
    e.isLexical = false ∧ ∃ t ∈ tokens, l = Location.locate source t.offset ∧
      e.text? = some t.text ∧ (∀ kind ∈ e.kind?, t.kind = kind) ∧
      ∀ text place, e = .invalidValuePath text place → t.kind = .bracketOpen := by
  -- The first two errors have no place. Each of the others is made from the parts of its token.
  cases h with
  | unexpectedEnd => contradiction
  | emptyInput => contradiction
  | @tokenMismatch t ht expected =>
      cases hl
      exact ⟨rfl, t, ht, rfl, rfl, by simp [ParseError.kind?], by simp⟩
  | @unexpectedToken t ht =>
      cases hl
      exact ⟨rfl, t, ht, rfl, rfl, by simp [ParseError.kind?], by simp⟩
  | @invalidValuePath t ht hkind =>
      cases hl
      exact ⟨rfl, t, ht, rfl, rfl, by simp [ParseError.kind?], fun _ _ _ => hkind⟩
  | @expectedPath t ht =>
      cases hl
      exact ⟨rfl, t, ht, rfl, rfl, by simp [ParseError.kind?], by simp⟩

/-- Every place that an error gives is genuine. It is between two characters of the text, and the
text at fault stands there. Unless the scan stops at this place, the text at fault is a token of the
scan of the whole text, of the kind that the error gives; for a predicate that is not allowed, it is
the bracket. If the scan stops there, it is what follows, up to ten characters. -/
theorem location_of_refused {mode : Mode} {input : String} {e : ParseError} {l : Location}
    (h : Refuses mode input e) (hl : e.location? = some l) :
    l = Location.locate input l.position ∧ (⟨l.position⟩ : String.Pos.Raw).IsValid input ∧
    ∃ text, e.text? = some text ∧ text ≠ "" ∧
      text.toList <+: (textFrom input l.position).toList ∧
      (e.isLexical = false → ∃ ts, tokensFrom mode 0 input.toList = .ok ts ∧
        ∃ t ∈ ts, t.offset = l.position ∧ t.text = text ∧ (∀ kind ∈ e.kind?, t.kind = kind) ∧
          ∀ text place, e = .invalidValuePath text place → t.kind = .bracketOpen) ∧
      (e.isLexical = true → text.toList = (textFrom input l.position).toList.take 10) := by
  rcases lexical_or_pointsInto_of_refuses h with
    ⟨before, rest, hparts, hrest, rfl⟩ | ⟨ts, htokens, hpoints⟩
  · -- The scan stops. What follows there is the text at fault, cut off.
    obtain ⟨-, hlocate, hvalid, hafter⟩ := locate_between hparts (Option.some.inj hl).symm
    refine ⟨hlocate, hvalid, String.ofList (rest.take fragmentLength), rfl, ?_, ?_, ?_, ?_⟩
    · intro hempty
      have hnil : rest.take fragmentLength = [] := by
        rw [← String.toList_ofList (l := rest.take fragmentLength), hempty]
        rfl
      exact hrest ((List.take_eq_nil_iff.mp hnil).resolve_left (by decide))
    · rw [hafter, String.toList_ofList]
      exact List.take_prefix _ _
    · intro hlexical
      contradiction
    · intro _
      rw [hafter, String.toList_ofList]
      rfl
  · -- A token is at fault, and the tokens in front of it are the text in front of the place.
    obtain ⟨hlexical, t, ht, hplace, htext, hkind, hbracket⟩ := hpoints.token hl
    obtain ⟨before, after, hparts, hoffset, hne⟩ := parts_of_mem_tokensFrom htokens ht
    rw [hoffset] at hplace
    obtain ⟨hposition, hlocate, hvalid, hafter⟩ := locate_between hparts hplace
    refine ⟨hlocate, hvalid, t.text, htext, ?_, ?_, ?_, ?_⟩
    · intro hempty
      rw [hempty] at hne
      contradiction
    · rw [hafter]
      exact List.prefix_append _ _
    · intro _
      exact ⟨ts, htokens, t, ht, hoffset.trans hposition.symm, rfl, hkind, hbracket⟩
    · intro hlexical'
      rw [hlexical] at hlexical'
      contradiction

/-- A value path inside of another one, in a group in a negation in a group: the error is at the
outer bracket, with the two bytes of `é` in front of it. And a path whose scan stops. -/
theorem location_of_refused_nested :
    (Refuses .filter "a pr and (b eq \"é\" or not (c[(d[e pr])]))"
        (.invalidValuePath "[" ⟨1, 29, 29⟩) ∧
      ∃ ts, tokensFrom .filter 0 "a pr and (b eq \"é\" or not (c[(d[e pr])]))".toList = .ok ts ∧
        ∃ t ∈ ts, t.offset = 29 ∧ t.text = "[" ∧ t.kind = .bracketOpen) ∧
    Refuses .path "e[b eq \"ü\"].?sub attribute name"
      (.unrecognizedInput ".?sub attr" ⟨1, 12, 12⟩) ∧
    ".?sub attr".toList
      = (textFrom "e[b eq \"ü\"].?sub attribute name" 12).toList.take 10 := by
  have hfilter : Refuses .filter "a pr and (b eq \"é\" or not (c[(d[e pr])]))"
      (.invalidValuePath "[" ⟨1, 29, 29⟩) := by
    unfold Refuses
    decide +kernel
  have hpath : Refuses .path "e[b eq \"ü\"].?sub attribute name"
      (.unrecognizedInput ".?sub attr" ⟨1, 12, 12⟩) := by
    unfold Refuses
    decide +kernel
  refine ⟨⟨hfilter, ?_⟩, hpath, ?_⟩
  · obtain ⟨-, -, text, ⟨rfl⟩, -, -, htoken, -⟩ := location_of_refused hfilter rfl
    obtain ⟨ts, hts, t, ht, hoffset, htext, -, hbracket⟩ := htoken rfl
    exact ⟨ts, hts, t, ht, hoffset, htext, hbracket _ _ rfl⟩
  · obtain ⟨-, -, text, ⟨rfl⟩, -, -, -, hfragment⟩ := location_of_refused hpath rfl
    exact hfragment rfl

end Scim
