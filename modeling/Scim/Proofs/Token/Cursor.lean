import Scim.Token.Stream

/-!
# `Scim.Proofs.Token.Cursor`: the cursor of a stream over whole runs

A stream keeps its tokens in two lists, the consumed ones in reverse. Whoever uses it sees a list of
tokens and an index. Both views agree in every state: `peek?_eq` and `current?_eq` say which tokens
are looked at, `hasNext_iff_lt` when there is another one, and `position_le` that the index is never
past the end. `Indexes` collects this for a text and its tokens.

What there is left to say is how the index moves. The operations are data here,
`TokenStream.Operation`, and `TokenStream.perform` carries one out. An operation answers something
and leaves a stream behind, also where it only looks. One of the errors does more than look:
`unexpected` starts a stream that nothing has been consumed of.

* `perform_over` is one half of the step: no operation changes the text or the tokens.
* `position_perform` is the other one: `Operation.destination` says where the cursor is afterwards.
* `perform_answers` says what an operation does and answers, with a field for each thing that a user
  can rely on (`Answers`).
* `run_over` goes on to sequences of operations, by induction.

`cursor_of_run` is the result. After every sequence of operations, in any order and with any indices
to go back to, the stream is still the list with an index that it was, and the next operation does
what it should.
-/

set_option autoImplicit false

namespace Scim.TokenStream

/-! ### A list and an index -/

section
variable (s : TokenStream)

/-- The tokens are those in front of the cursor and those behind it. -/
theorem length_tokens : s.tokens.length = s.position + s.rest.length := by
  simp [tokens, position]

/-- The cursor is never past the end. -/
theorem position_le : s.position ≤ s.tokens.length := by
  rw [length_tokens]
  omega

/-- The next token is the one at the index. -/
theorem peek?_eq : s.peek? = s.tokens[s.position]? := by
  show s.rest.head? = (s.consumed.reverse ++ s.rest)[s.consumed.length]?
  rw [List.getElem?_append_right (by simp), List.length_reverse, Nat.sub_self,
    List.head?_eq_getElem?]

/-- The token consumed last is the one before the index. -/
theorem current?_eq :
    s.current? = if s.position = 0 then none else s.tokens[s.position - 1]? := by
  show s.consumed.head?
    = if s.consumed.length = 0 then none
      else (s.consumed.reverse ++ s.rest)[s.consumed.length - 1]?
  cases s.consumed with
  | nil => rfl
  | cons t ts =>
      -- The token consumed last is the last one of the list in order.
      rw [if_neg (by simp), List.head?_cons, List.getElem?_append_left (by simp)]
      simp

/-- There is none exactly at the start. -/
theorem current?_eq_none_iff : s.current? = none ↔ s.position = 0 := by
  show s.consumed.head? = none ↔ s.consumed.length = 0
  rw [List.head?_eq_none_iff, List.length_eq_zero_iff]

/-- There is a next token if one can be looked at. -/
theorem hasNext_iff_peek? : s.hasNext = true ↔ s.peek?.isSome = true := by
  show (!s.rest.isEmpty) = true ↔ s.rest.head?.isSome = true
  cases s.rest <;> simp

/-- And that is so if the index is not at the end. -/
theorem hasNext_iff_lt : s.hasNext = true ↔ s.position < s.tokens.length := by
  rw [hasNext_iff_peek?, peek?_eq, isSome_getElem?]

end

/-! ### Operations and their replies -/

/-- An operation on a stream. -/
inductive Operation where
  | peek
  | current
  | hasNext
  | isNext (kinds : List TokenKind)
  | advance
  | consume (kinds : List TokenKind)
  | resetTo (index : Nat)
  | unexpected
  | unexpectedNext
  | unexpectedAt (t : Token)
  | invalidValuePath
  | expectedPath

/-- What an operation answers. -/
inductive Reply where
  /-- A token, if there is one. -/
  | token (t? : Option Token)
  /-- Yes or no. -/
  | truth (b : Bool)
  /-- A token that was asked for, or why it is not there. -/
  | taken (outcome : Except ParseError Token)
  /-- An error to fail with. -/
  | error (e : ParseError)
  /-- Nothing. -/
  | done

/-- Whether a reply comes with a token. -/
def Reply.hasToken : Reply → Bool
  | .token (some _) | .taken (.ok _) => true
  | _ => false

/-- Carries out an operation. -/
def perform (s : TokenStream) : Operation → Reply × TokenStream
  | .peek => (.token s.peek?, s)
  | .current => (.token s.current?, s)
  | .hasNext => (.truth s.hasNext, s)
  | .isNext kinds => (.truth (s.isNext kinds), s)
  | .advance => (.token s.peek?, s.advance)
  | .consume kinds =>
    match s.consume kinds with
    | .ok (t, rest) => (.taken (.ok t), rest)
    | .error e => (.taken (.error e), s)
  | .resetTo index => (.done, s.resetTo index)
  | .unexpected => (.error s.unexpected, s.started)
  | .unexpectedNext => (.error s.unexpectedNext, s)
  | .unexpectedAt t => (.error (s.unexpectedAt t), s)
  | .invalidValuePath => (.error s.invalidValuePath, s)
  | .expectedPath => (.error s.expectedPath, s)

/-- The stream after a sequence of operations. -/
def run (s : TokenStream) (operations : List Operation) : TokenStream :=
  operations.foldl (fun s operation => (s.perform operation).2) s

/-- Where an operation with this reply leaves the cursor of a stream of so many tokens. -/
def Operation.destination (count position : Nat) (reply : Reply) : Operation → Nat
  | .advance | .consume _ => if reply.hasToken then position + 1 else position
  | .resetTo index => min index count
  | .unexpected => if position = 0 ∧ 0 < count then position + 1 else position
  | .peek | .current | .hasNext | .isNext _ | .unexpectedNext | .unexpectedAt _
  | .invalidValuePath | .expectedPath => position

/-! ### What an operation leaves behind -/

/-- A stream of these tokens of this text, wherever its cursor is. -/
structure Over (source : String) (tokens : List Token) (s : TokenStream) : Prop where
  source_eq : s.source = source
  tokens_eq : s.tokens = tokens

section
variable {source : String} {tokens : List Token} {s : TokenStream}

/-- Going on to the next token keeps all tokens. -/
theorem Over.advance (h : s.Over source tokens) : s.advance.Over source tokens := by
  obtain ⟨rfl, rfl⟩ := h
  unfold TokenStream.advance
  cases hrest : s.rest with
  | nil => exact ⟨rfl, rfl⟩
  | cons t ts => exact ⟨rfl, by simp [TokenStream.tokens, hrest]⟩

/-- So does going back to an index, or forward. -/
theorem Over.resetTo (h : s.Over source tokens) (index : Nat) :
    (s.resetTo index).Over source tokens := by
  obtain ⟨rfl, rfl⟩ := h
  exact ⟨rfl, by simp [TokenStream.resetTo, TokenStream.tokens]⟩

/-- So does starting. -/
theorem Over.started (h : s.Over source tokens) : s.started.Over source tokens := by
  unfold TokenStream.started
  split
  · exact h.advance
  · exact h

/-- The cursor goes on by one, unless it is at the end. -/
theorem position_advance (s : TokenStream) :
    s.advance.position = if s.hasNext then s.position + 1 else s.position := by
  unfold advance hasNext
  cases s.rest <;> rfl

/-- The cursor is put at the index, and at the end if the index is past it. -/
theorem position_resetTo (s : TokenStream) (index : Nat) :
    (s.resetTo index).position = min index s.tokens.length := by
  simp [resetTo, position]

/-- The next token is consumed, or refused because of its kind, or there is none. -/
theorem perform_consume (s : TokenStream) (kinds : List TokenKind) :
    (∃ t, s.peek? = some t ∧ t.kind ∈ kinds ∧
      s.perform (.consume kinds) = (.taken (.ok t), s.advance)) ∨
    (∃ t, s.peek? = some t ∧ t.kind ∉ kinds ∧ s.perform (.consume kinds)
      = (.taken (.error (.tokenMismatch t.text t.kind kinds (s.locationOf t))), s)) ∨
    s.peek? = none ∧ s.perform (.consume kinds) = (.taken (.error .unexpectedEnd), s) := by
  unfold perform consume peek?
  cases s.rest with
  | nil => exact .inr (.inr ⟨rfl, rfl⟩)
  | cons t ts =>
      by_cases hkind : t.kind ∈ kinds
      · exact .inl ⟨t, rfl, hkind, by simp [hkind]⟩
      · exact .inr (.inl ⟨t, rfl, hkind, by simp [hkind]⟩)

/-- No operation changes the text or the tokens. -/
theorem perform_over (h : s.Over source tokens) (operation : Operation) :
    (s.perform operation).2.Over source tokens := by
  cases operation with
  | advance => exact h.advance
  | consume kinds =>
      rcases s.perform_consume kinds with ⟨t, -, -, heq⟩ | ⟨t, -, -, heq⟩ | ⟨-, heq⟩
      · rw [heq]
        exact h.advance
      · rwa [heq]
      · rwa [heq]
  | resetTo index => exact h.resetTo index
  | unexpected => exact h.started
  | _ => exact h

/-- No sequence of operations changes the text or the tokens. -/
theorem run_over (h : s.Over source tokens) (operations : List Operation) :
    (s.run operations).Over source tokens := by
  induction operations generalizing s with
  | nil => exact h
  | cons operation operations ih => exact ih (perform_over h operation)

/-- Where the cursor is after an operation. -/
theorem position_perform (s : TokenStream) (operation : Operation) :
    (s.perform operation).2.position
      = operation.destination s.tokens.length s.position (s.perform operation).1 := by
  have htoken : (Reply.token s.peek?).hasToken = s.hasNext := by
    rw [Bool.eq_iff_iff, hasNext_iff_peek?]
    cases s.peek? <;> simp [Reply.hasToken]
  cases operation with
  | advance =>
      show s.advance.position = if (Reply.token s.peek?).hasToken then _ else _
      rw [position_advance, htoken]
  | consume kinds =>
      rcases s.perform_consume kinds with ⟨t, hpeek, -, heq⟩ | ⟨t, -, -, heq⟩ | ⟨-, heq⟩
      · have hnext : s.hasNext = true := (hasNext_iff_peek? s).mpr (by rw [hpeek]; rfl)
        rw [heq]
        show s.advance.position = s.position + 1
        rw [position_advance, if_pos hnext]
      · rw [heq]
        rfl
      · rw [heq]
        rfl
  | resetTo index => exact position_resetTo s index
  | unexpected =>
      show s.started.position = if s.position = 0 ∧ 0 < s.tokens.length then _ else _
      unfold started
      by_cases hstart : s.position = 0
      · -- At the start there is a next token exactly if there is any.
        have hnext : s.hasNext = true ↔ s.position = 0 ∧ 0 < s.tokens.length := by
          rw [hasNext_iff_lt]
          omega
        rw [if_pos hstart, position_advance]
        simp only [hnext]
      · rw [if_neg hstart, if_neg fun h => hstart h.1]
  | _ => rfl

/-- The cursor is behind a token as soon as the stream is started, if there is one at all. -/
theorem unexpected_eq_emptyInput_iff : s.unexpected = .emptyInput ↔ s.tokens = [] := by
  have hposition : s.started.position = 0 ↔ s.tokens = [] := by
    have hmoved := position_perform s .unexpected
    change s.started.position = if _ then _ else _ at hmoved
    rw [hmoved, ← List.length_eq_zero_iff]
    have hle := s.position_le
    by_cases hstart : s.position = 0 ∧ 0 < s.tokens.length
    · rw [if_pos hstart]
      omega
    · rw [if_neg hstart]
      omega
  unfold unexpected
  cases hcurrent : s.started.current? with
  | none => simp [← hposition, ← current?_eq_none_iff, hcurrent]
  | some t => simp [← hposition, ← current?_eq_none_iff, hcurrent, unexpectedAt]

end

/-! ### Runs -/

/-- A stream seen as a list of tokens and an index into it. -/
structure Indexes (source : String) (tokens : List Token) (s : TokenStream) : Prop
    extends Over source tokens s where
  position_le : s.position ≤ tokens.length
  /-- The token consumed last is in front of the cursor. -/
  current?_eq : s.current? = if s.position = 0 then none else tokens[s.position - 1]?
  current?_eq_none_iff : s.current? = none ↔ s.position = 0
  peek?_eq : s.peek? = tokens[s.position]?
  hasNext_iff : s.hasNext = true ↔ s.peek?.isSome = true

/-- Whatever has been done to a stream, it is a list of tokens and an index. -/
theorem Over.indexes {source : String} {tokens : List Token} {s : TokenStream}
    (h : s.Over source tokens) : s.Indexes source tokens := by
  obtain ⟨rfl, rfl⟩ := h
  exact ⟨⟨rfl, rfl⟩, s.position_le, s.current?_eq, s.current?_eq_none_iff, s.peek?_eq,
    s.hasNext_iff_peek?⟩

/-- What an operation does to a stream, given its reply and the stream that it leaves behind. -/
structure Answers (s : TokenStream) (operation : Operation) (reply : Reply) (s' : TokenStream) :
    Prop where
  /-- The cursor moves by no other operations and no further than this. -/
  position_eq : s'.position = operation.destination s.tokens.length s.position reply
  /-- The next token is consumed exactly if it is of one of the kinds. -/
  consumes : ∀ kinds t, operation = .consume kinds →
    (reply = .taken (.ok t) ↔ s.peek? = some t ∧ t.kind ∈ kinds)
  /-- If it is refused, the error is about this token, or there is none. -/
  refuses : ∀ kinds e, operation = .consume kinds → reply = .taken (.error e) →
    s' = s ∧ (e = .unexpectedEnd ↔ s.hasNext = false) ∧
      ∀ t, s.peek? = some t → e = .tokenMismatch t.text t.kind kinds (s.locationOf t)
  /-- The text is called empty only if there is no token in it. -/
  empty : operation = .unexpected → (reply = .error .emptyInput ↔ s.tokens = [])

/-- Every operation answers by the token at the cursor and moves the cursor accordingly. -/
theorem perform_answers (s : TokenStream) (operation : Operation) :
    s.Answers operation (s.perform operation).1 (s.perform operation).2 := by
  have hend : s.hasNext = false ↔ s.peek? = none := by
    rw [← Bool.not_eq_true, hasNext_iff_peek?, Option.not_isSome_iff_eq_none]
  refine ⟨position_perform s operation, ?_, ?_, ?_⟩
  · rintro kinds t rfl
    rcases s.perform_consume kinds with
      ⟨t', hpeek, hkind, heq⟩ | ⟨t', hpeek, hkind, heq⟩ | ⟨hpeek, heq⟩
    · rw [heq, hpeek, Reply.taken.injEq, Except.ok.injEq, Option.some.injEq]
      constructor
      · intro ht
        exact ⟨ht, ht ▸ hkind⟩
      · intro ht
        exact ht.1
    · rw [heq, hpeek, Option.some.injEq]
      constructor
      · intro h
        cases h
      · rintro ⟨rfl, hmem⟩
        exact absurd hmem hkind
    · rw [heq, hpeek]
      simp
  · rintro kinds e rfl
    rcases s.perform_consume kinds with
      ⟨t, hpeek, -, heq⟩ | ⟨t, hpeek, -, heq⟩ | ⟨hpeek, heq⟩
    · rw [heq]
      intro h
      cases h
    · rw [heq, hend, hpeek]
      intro h
      cases h
      simp
    · rw [heq, hend, hpeek]
      intro h
      cases h
      simp
  · rintro rfl
    show Reply.error s.unexpected = .error .emptyInput ↔ _
    rw [Reply.error.injEq]
    exact unexpected_eq_emptyInput_iff

/-- After any sequence of operations on a new stream its text and tokens are what they were, the
cursor is an index into the tokens, and the next operation, whichever it is, moves the cursor and
answers as it should. -/
theorem cursor_of_run (source : String) (tokens : List Token) (operations : List Operation) :
    ((make source tokens).run operations).Indexes source tokens ∧
    ∀ operation, ((make source tokens).run operations).Answers operation
      (((make source tokens).run operations).perform operation).1
      (((make source tokens).run operations).perform operation).2 := by
  have hstart : (make source tokens).Over source tokens := ⟨rfl, rfl⟩
  exact ⟨(run_over hstart operations).indexes, fun operation => perform_answers _ operation⟩

-- The first error starts the stream and the second one leaves it alone. An index that is too great
-- leads to the end, where there is nothing to advance over.
example : ((make "a pr" [⟨.name, "a", 0⟩, ⟨.comparisonOperator, " pr", 1⟩]).run
    [.unexpected, .unexpected]).position = 1 := by decide

example : ((make "a pr" [⟨.name, "a", 0⟩, ⟨.comparisonOperator, " pr", 1⟩]).run
    [.unexpected, .resetTo 7, .advance]).position = 2 := by decide

end Scim.TokenStream
