import Scim.ParseError

/-!
# `Scim.Token.Stream`: tokens with a cursor

A stream holds the tokens of one scan. The cursor divides them into those already consumed and the
rest. The errors that point at a token are made here, because only the stream knows the text that
the token is located in.

* `peek?`, `isNext` and `hasNext` look at what is after the cursor, `current?` at what is before it.
* `advance`, `consume` and `resetTo` move it. `consume` asks for a token of given kinds and refuses
  any other.
* `Fault` lists what can be wrong with the tokens of a stream, and `TokenStream.error` makes an
  error of each fault. Some errors are about the token that was consumed last. If there is none,
  `unexpected` consumes the first token before (`started`).

`Scim.Proofs.Token.Cursor` shows that this is a list of tokens with an index into it.
-/

set_option autoImplicit false

namespace Scim

/-- Tokens with a cursor between two of them. -/
structure TokenStream where
  /-- The text that the tokens are located in. -/
  source : String
  /-- The tokens before the cursor, the nearest first. -/
  consumed : List Token
  /-- The tokens after the cursor. -/
  rest : List Token
  deriving DecidableEq, Repr

/-- What can be wrong with a stream when it is read. -/
inductive Fault where
  /-- This comparison operator is none. -/
  | operator (t : Token)
  /-- This literal has no value. -/
  | literal (t : Token)
  /-- This logical operator is none. -/
  | connective (t : Token)
  /-- The token consumed last is not allowed, or the first one if none has been consumed. -/
  | last
  /-- The next token is not allowed. -/
  | next
  /-- The predicate behind the bracket consumed last is not allowed. -/
  | predicate
  /-- The next token does not start a path. -/
  | path

namespace TokenStream

/-- The stream with the cursor before the first token. -/
def make (source : String) (tokens : List Token) : TokenStream :=
  ⟨source, [], tokens⟩

/-- All tokens, consumed or not. -/
def tokens (s : TokenStream) : List Token :=
  s.consumed.reverse ++ s.rest

/-- The number of consumed tokens. -/
def position (s : TokenStream) : Nat :=
  s.consumed.length

/-- The next token. -/
def peek? (s : TokenStream) : Option Token :=
  s.rest.head?

/-- The token consumed last. -/
def current? (s : TokenStream) : Option Token :=
  s.consumed.head?

/-- Whether there is a next token. -/
def hasNext (s : TokenStream) : Bool :=
  !s.rest.isEmpty

/-- Whether the next token is of one of these kinds. -/
def isNext (s : TokenStream) (kinds : List TokenKind) : Bool :=
  s.peek?.any fun t => kinds.contains t.kind

/-- The stream with one more token consumed, if there is one. -/
def advance (s : TokenStream) : TokenStream :=
  match s.rest with
  | [] => s
  | t :: ts => ⟨s.source, t :: s.consumed, ts⟩

/-- The stream with so many tokens consumed, or all if there are fewer. -/
def resetTo (s : TokenStream) (position : Nat) : TokenStream :=
  ⟨s.source, (s.tokens.take position).reverse, s.tokens.drop position⟩

/-- Where a token stands. -/
def locationOf (s : TokenStream) (t : Token) : Location :=
  Location.locate s.source t.offset

/-- The error that a token is not allowed here. -/
def unexpectedAt (s : TokenStream) (t : Token) : ParseError :=
  .unexpectedToken t.text t.kind (s.locationOf t)

/-- The next token, which must be of one of these kinds, and the stream after it. -/
def consume (s : TokenStream) (kinds : List TokenKind) : Except ParseError (Token × TokenStream) :=
  match s.rest with
  | [] => .error .unexpectedEnd
  | t :: _ =>
    if kinds.contains t.kind then .ok (t, s.advance)
    else .error (.tokenMismatch t.text t.kind kinds (s.locationOf t))

/-- The stream after its first token, if none has been consumed yet. -/
def started (s : TokenStream) : TokenStream :=
  if s.position = 0 then s.advance else s

/-- The error that points at the token consumed last, or at the first one if none has been
consumed. -/
def unexpected (s : TokenStream) : ParseError :=
  match s.started.current? with
  | some t => s.unexpectedAt t
  | none => .emptyInput

/-- The error that points at the next token. -/
def unexpectedNext (s : TokenStream) : ParseError :=
  match s.peek? with
  | some t => s.unexpectedAt t
  | none => .unexpectedEnd

/-- The error that a predicate is not allowed, at the token consumed last. -/
def invalidValuePath (s : TokenStream) : ParseError :=
  match s.current? with
  | some t => .invalidValuePath t.text (s.locationOf t)
  | none => .emptyInput

/-- The error that a path does not start with the next token. -/
def expectedPath (s : TokenStream) : ParseError :=
  match s.peek? with
  | some t => .expectedPath t.text t.kind (s.locationOf t)
  | none => .emptyInput

/-- The error for what is wrong with a stream. -/
def error (s : TokenStream) : Fault → ParseError
  | .operator t | .literal t | .connective t => s.unexpectedAt t
  | .last => s.unexpected
  | .next => s.unexpectedNext
  | .predicate => s.invalidValuePath
  | .path => s.expectedPath

/-- How much there is still to read. -/
def weight (s : TokenStream) : Nat :=
  tokensWeight s.rest

end TokenStream

end Scim
