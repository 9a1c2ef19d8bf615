import Scim.Parse.Attempt
import Scim.Token.Stream

/-!
# `Scim.Parse.Step`: taking tokens off a stream

A reader takes a stream and gives what it has read together with the stream after it. `Step` is such
a result. It carries the proof that the stream after it `Follows` the one before: the same tokens,
with the cursor further on. So it has less left to read, and that is why reading ends.

There are two steps that everything else is made of:

* `takeToken` takes the next token, which must be of a given kind.
* `takeGroup` takes `(`, everything up to the parenthesis that closes it, and that parenthesis. It
  keeps the tokens in between as a `Group`, and the proof that they are what matching the
  parentheses gives.
-/

set_option autoImplicit false

namespace Scim

/-- A stream that reading from another one leads to: the same tokens, more of them consumed. -/
structure TokenStream.Follows (t s : TokenStream) : Prop where
  source_eq : t.source = s.source
  tokens_eq : t.tokens = s.tokens
  suffix : t.rest <:+ s.rest
  lighter : t.weight < s.weight

/-- What reading leads to from where reading leads to, reading leads to as well. -/
theorem TokenStream.Follows.trans {s t u : TokenStream} (h : u.Follows t) (h' : t.Follows s) :
    u.Follows s :=
  ⟨h.source_eq.trans h'.source_eq, h.tokens_eq.trans h'.tokens_eq, h.suffix.trans h'.suffix,
    Nat.lt_trans h.lighter h'.lighter⟩

/-- What has been read from the front of a stream, at least one token, and the stream after it. -/
structure Step (s : TokenStream) (α : Type) where
  value : α
  rest : TokenStream
  follows : rest.Follows s

namespace Step

variable {s : TokenStream} {α β : Type}

/-- Every step leaves less to read. All readers end because of this. -/
theorem lighter (step : Step s α) : step.rest.weight < s.weight :=
  step.follows.lighter

/-- The same step with another value. -/
def map (f : α → β) (step : Step s α) : Step s β :=
  ⟨f step.value, step.rest, step.follows⟩

/-- Two steps as one, with the value of the second. -/
def andThen (first : Step s α) (second : Step first.rest β) : Step s β :=
  ⟨second.value, second.rest, second.follows.trans first.follows⟩

end Step

namespace TokenStream

/-- What it takes to consume a token: it is the next one, of one of the kinds, and it has moved over
the cursor. -/
theorem rest_eq_of_consume {s rest : TokenStream} {kinds : List TokenKind} {t : Token}
    (h : s.consume kinds = .ok (t, rest)) :
    s.rest = t :: rest.rest ∧ t.kind ∈ kinds ∧ rest = ⟨s.source, t :: s.consumed, rest.rest⟩ := by
  unfold consume at h
  split at h
  · contradiction
  · next t' ts hrest =>
    split at h
    · next hkind =>
      obtain ⟨rfl, rfl⟩ : t' = t ∧ s.advance = rest := by simpa using h
      simpa [advance, hrest] using hkind
    · contradiction

/-- Any tokens can be taken off the front of a stream, if there are some. -/
theorem follows_of_rest_eq {s : TokenStream} {t : Token} (taken : List Token) {after : List Token}
    (h : s.rest = t :: taken ++ after) :
    Follows ⟨s.source, (t :: taken).reverse ++ s.consumed, after⟩ s := by
  refine ⟨rfl, ?_, ⟨t :: taken, h.symm⟩, ?_⟩
  · simp [tokens, h]
  · have := t.weight_pos
    simp only [weight, h, List.cons_append, tokensWeight, tokensWeight_append]
    omega

/-- The stream behind the next token. -/
theorem follows_advance {s : TokenStream} {t : Token} (h : s.peek? = some t) :
    s.advance.Follows s := by
  obtain ⟨source, consumed, rest⟩ := s
  obtain ⟨ts, rfl⟩ := List.head?_eq_some_iff.mp h
  exact follows_of_rest_eq [] rfl

/-- What comes behind a cursor that is further on comes behind the cursor. -/
theorem Follows.of_resetTo {s t : TokenStream} {n : Nat}
    (h : t.Follows (s.resetTo (s.position + n))) : t.Follows s := by
  have hrest : (s.resetTo (s.position + n)).rest = s.rest.drop n := by
    simp [resetTo, tokens, position, List.drop_append]
  have hsuffix : s.rest.drop n <:+ s.rest := List.drop_suffix n s.rest
  refine ⟨h.source_eq, h.tokens_eq.trans ?_, h.suffix.trans (hrest ▸ hsuffix), ?_⟩
  · simp [resetTo, tokens]
  · -- Tokens that are skipped do not make the stream heavier.
    refine Nat.lt_of_lt_of_le h.lighter ?_
    rw [weight, weight, hrest, ← List.take_append_drop n s.rest, tokensWeight_append]
    simp

/-- Consuming a token is a way to read. -/
theorem follows_of_consume {s rest : TokenStream} {kinds : List TokenKind} {t : Token}
    (h : s.consume kinds = .ok (t, rest)) : rest.Follows s := by
  obtain ⟨hs, -, hrest⟩ := rest_eq_of_consume h
  rw [hrest]
  exact follows_of_rest_eq [] hs

end TokenStream

/-- Reads the next token, which must be of one of the given kinds. -/
def takeToken (kinds : List TokenKind) (s : TokenStream) : Attempt (Step s Token) :=
  match h : s.consume kinds with
  | .ok (t, rest) => pure ⟨t, rest, TokenStream.follows_of_consume h⟩
  | .error e => .fail e

/-- Splits tokens at the parenthesis that closes the one before them, when so many others have to
be closed first. -/
def splitAtClosing : Nat → List Token → Option (List Token × Token × List Token)
  | _, [] => none
  | depth, t :: ts =>
    match t.kind, depth with
    | .parenClose, 0 => some ([], t, ts)
    | .parenClose, depth + 1 =>
      (splitAtClosing depth ts).map fun (body, closing, rest) => (t :: body, closing, rest)
    | .parenOpen, depth =>
      (splitAtClosing (depth + 1) ts).map fun (body, closing, rest) => (t :: body, closing, rest)
    | _, depth =>
      (splitAtClosing depth ts).map fun (body, closing, rest) => (t :: body, closing, rest)

/-- Splitting at the closing parenthesis loses no tokens. -/
theorem eq_append_of_splitAtClosing {depth : Nat} {ts body rest : List Token} {closing : Token}
    (h : splitAtClosing depth ts = some (body, closing, rest)) :
    ts = body ++ closing :: rest := by
  induction ts generalizing depth body with
  | nil => simp [splitAtClosing] at h
  | cons t ts ih =>
    simp only [splitAtClosing] at h
    split at h
    · simp only [Option.some.injEq, Prod.mk.injEq] at h
      obtain ⟨rfl, rfl, rfl⟩ := h
      rfl
    all_goals
      simp only [Option.map_eq_some_iff, Prod.mk.injEq, Prod.exists] at h
      obtain ⟨body', closing', rest', hrec, rfl, rfl, rfl⟩ := h
      simp [ih hrec]

/-- What is between two parentheses at the front of a stream. -/
structure Group (s : TokenStream) where
  /-- The opening parenthesis. -/
  opening : Token
  /-- The tokens between the parentheses. -/
  body : List Token
  /-- The closing parenthesis. -/
  closing : Token
  /-- The stream after the closing parenthesis. -/
  rest : TokenStream
  front : s.rest = opening :: (body ++ closing :: rest.rest)
  opening_kind : opening.kind = .parenOpen
  matched : splitAtClosing 0 (body ++ closing :: rest.rest) = some (body, closing, rest.rest)
  follows : rest.Follows s

namespace Group

variable {s : TokenStream}

/-- The body of a group is lighter than the stream that the group is at the front of, as there are
the parentheses as well. -/
theorem body_lighter (group : Group s) : tokensWeight group.body < s.weight := by
  have := group.opening.weight_pos
  rw [TokenStream.weight, group.front, tokensWeight, tokensWeight_append]
  omega

end Group

/-- Reads `(`, everything up to the parenthesis that closes it, and that parenthesis. -/
def takeGroup (s : TokenStream) : Attempt (Group s) :=
  match h : s.consume [.parenOpen] with
  | .error e => .fail e
  | .ok (opening, inner) =>
    match hsplit : splitAtClosing 0 inner.rest with
    | none => .fail .unexpectedEnd
    | some (body, closing, after) =>
      have front : s.rest = opening :: (body ++ closing :: after) := by
        rw [(TokenStream.rest_eq_of_consume h).1, eq_append_of_splitAtClosing hsplit]
      return {
        opening
        body
        closing
        rest := ⟨s.source, (opening :: (body ++ [closing])).reverse ++ s.consumed, after⟩
        front
        opening_kind := by simpa using (TokenStream.rest_eq_of_consume h).2.1
        matched := by rw [← eq_append_of_splitAtClosing hsplit]; exact hsplit
        follows := TokenStream.follows_of_rest_eq (body ++ [closing]) (by simpa using front) }

end Scim
