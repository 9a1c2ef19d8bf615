import Scim.Parse.Filter
import Scim.Parse.Path
import Scim.Proofs.Guarded.Basic

/-!
# `Scim.Proofs.Guarded.Reader`: reading by offsets and cursors

This is `attemptFilter` and `attemptPath` with the operations of `Scim.Proofs.Guarded.Basic`. The
grammar is that of `Scim.Parse.Reading`; what is different are the steps that it is carried out
with. The text stays in one piece:

* `scanRange` walks through a range of the text by offsets and cuts out every token. It may only go
  on behind the offset that it is at.
* `enclosed` finds the body of a group by counting parentheses up and down (`closingIndex`). The
  body is a range of the text, too, and is scanned as one.
* `pathOf` cuts a name at its last colon, and `literal?` cuts the value of a string out of its
  token.
* `refuse` locates the token that an error is about.

Each of these steps can be out of range.

So can a call. `readExpression` reads from a `Frame`, a stream together with the range that it was
scanned from, and it may only be called on a frame *below* the one at hand (`Frame.Below`): the same
stream with the cursor further on, or a stream over a shorter range. There is no infinite chain of
such calls (`Frame.wellFounded_below`), and this is the reason why reading ends.

Nothing is proved here about staying in range; see `Scim.Proofs.Guarded.InRange`.
-/

set_option autoImplicit false

namespace Scim

namespace Guarded

variable {α : Type}

/-! ### Errors and tokens -/

/-- Reading fails at a token. -/
def failAt (s : TokenStream) (t : Token) (error : Token → Location → ParseError) : Guarded α := do
  let place ← locate s.source t.offset
  fail (error t place)

/-- Reading fails at a token, or for another reason if there is none. -/
def failAt? (s : TokenStream) (t? : Option Token) (error : Token → Location → ParseError)
    (otherwise : ParseError) : Guarded α :=
  match t? with
  | some t => failAt s t error
  | none => fail otherwise

/-- The cause that a token is not allowed where it stands. -/
def notAllowed (t : Token) : Location → ParseError :=
  .unexpectedToken t.text t.kind

/-- Reading fails because of what is wrong with a stream. The token at fault is located by going
back in the text. -/
def refuse (s : TokenStream) : Fault → Guarded α
  | .operator t | .literal t | .connective t => failAt s t notAllowed
  | .last => failAt? s s.started.current? notAllowed .emptyInput
  | .next => failAt? s s.peek? notAllowed .unexpectedEnd
  | .predicate => failAt? s s.current? (fun t => .invalidValuePath t.text) .emptyInput
  | .path => failAt? s s.peek? (fun t => .expectedPath t.text t.kind) .emptyInput

/-- Takes the next token, which must be of one of these kinds. -/
def take (kinds : List TokenKind) (s : TokenStream) : Guarded (Step s Token) :=
  match h : s.peek? with
  | none => fail .unexpectedEnd
  | some t =>
    if kinds.contains t.kind then pure ⟨t, s.advance, TokenStream.follows_advance h⟩
    else failAt s t fun t => .tokenMismatch t.text t.kind kinds

/-- The path of a name, cut at its last colon. -/
def pathOf (text : String) : Guarded AttributePath := do
  let (schema, dotted) ← match lastIndex? ':' text.toList with
    | some index => do
      let schema ← slice text 0 index
      let dotted ← slice text (index + 1) text.utf8ByteSize
      pure (some schema, dotted)
    | none => pure (none, text)
  let (first, inner) := AttributePath.splitAtDots dotted.toList
  return ⟨schema, String.ofList first, inner.map String.ofList⟩

/-- The value of a literal, which for a string is cut out between its first and its last byte. -/
def literal? (t : Token) : Guarded (Option Value) :=
  if t.kind = .string then do
    let last ← difference t.text.utf8ByteSize 1
    let content ← slice t.text 1 last
    return some (.string content)
  else return t.literal?

/-! ### Scanning a range -/

/-- The tokens between two offsets. -/
def scanTokens (mode : Mode) (source : String) (offset stop : Nat) : Guarded (List Token) :=
  if hoffset : offset < stop then do
    let rest ← slice source offset stop
    match lexeme? mode rest.toList with
    | none =>
      note (.unscannable offset source)
      let place ← locate source offset
      fail (.unrecognizedInput (String.ofList (rest.toList.take fragmentLength)) place)
    | some (kind, m, _) =>
      let text ← slice rest 0 (String.utf8Len m)
      let token : Token := ⟨kind, text, offset⟩
      -- A token without characters would be found again and again.
      if hstop : offset < token.stop then
        have := Nat.sub_lt_sub_left hoffset hstop
        let tokens ← scanTokens mode source token.stop stop
        return token :: tokens
      else outOfRange
  else return []
termination_by stop - offset

/-- The stream of the tokens between two offsets. -/
def scanRange (mode : Mode) (source : String) (start stop : Nat) : Guarded TokenStream := do
  let tokens ← scanTokens mode source start stop
  let text ← slice source start stop
  note (.scanned mode tokens.length text)
  return .make source tokens

/-! ### Frames -/

/-- What an expression is read from: a stream, and the range of the text it was scanned from. -/
structure Frame where
  start : Nat
  stop : Nat
  stream : TokenStream

namespace Frame

/-- What may be read while an expression is read from a frame: the same stream further on, or a
stream over a shorter range of the same text. -/
def Below (callee caller : Frame) : Prop :=
  callee.stream.source = caller.stream.source ∧
    ((callee.start = caller.start ∧ callee.stop = caller.stop ∧
        callee.stream.tokens = caller.stream.tokens ∧
        caller.stream.position < callee.stream.position) ∨
      callee.stop - callee.start < caller.stop - caller.start)

/-- Whether a frame is below another one can be decided by comparing texts, lengths and cursors. -/
instance (callee caller : Frame) : Decidable (callee.Below caller) :=
  inferInstanceAs (Decidable (_ ∧ _))

/-- The length of the range, and then the number of tokens behind the cursor. -/
def measure (f : Frame) : Nat × Nat :=
  (f.stop - f.start, f.stream.rest.length)

/-- Below a frame the range is shorter, or the same with fewer tokens behind the cursor. -/
theorem measure_lt_of_below {callee caller : Frame} (h : callee.Below caller) :
    Prod.Lex (· < ·) (· < ·) callee.measure caller.measure := by
  obtain ⟨-, ⟨hstart, hstop, htokens, hposition⟩ | hshorter⟩ := h
  · have hlength := congrArg List.length htokens
    simp only [TokenStream.tokens, List.length_append, List.length_reverse] at hlength
    unfold TokenStream.position at hposition
    unfold measure
    rw [hstart, hstop]
    exact .right _ (by omega)
  · exact .left _ _ hshorter

/-- Frames cannot be below each other forever. -/
theorem wellFounded_below : WellFounded Below :=
  Subrelation.wf measure_lt_of_below
    (InvImage.wf measure (Prod.lex Nat.lt_wfRel Nat.lt_wfRel).wf)

end Frame

/-- How to read an expression from any frame below the given one, inside of a value path or not. -/
abbrev Calls (f : Frame) :=
  (g : Frame) → g.Below f → Bool → Guarded (Step g.stream (Option Node))

/-- Reads an expression from another frame, which must be below the one at hand. -/
def call {f : Frame} (read : Calls f) (g : Frame) (inValuePath : Bool) :
    Guarded (Step g.stream (Option Node)) :=
  if h : g.Below f then read g h inValuePath else outOfRange

/-! ### Groups -/

/-- How many tokens there are in front of the parenthesis that closes so many others. -/
def closingIndex (depth : Nat) : List Token → Guarded (Option Nat)
  | [] => return none
  | t :: ts => do
    let depth ← match t.kind with
      | .parenOpen => pure (depth + 1)
      | .parenClose => difference depth 1
      | _ => pure depth
    if depth = 0 then return some 0
    else
      let index? ← closingIndex depth ts
      return index?.map (· + 1)

/-- The tokens from an index on, which must not be behind the last one. -/
def tokensBehind (tokens : List Token) (index : Nat) : Guarded (List Token) :=
  if index ≤ tokens.length then pure (tokens.drop index) else outOfRange

/-- Reads `(`, everything up to the parenthesis that closes it, and that parenthesis. The value is
the range between the two, which must be one of the text. -/
def enclosed (s : TokenStream) : Guarded (Step s (Nat × Nat)) := do
  let opening ← take [.parenOpen] s
  let inner := opening.rest
  let ahead ← tokensBehind inner.tokens inner.position
  let index? ← closingIndex 1 ahead
  match index? with
  | none => fail .unexpectedEnd
  | some index =>
    let closing ← take [.parenClose] (inner.resetTo (inner.position + index))
    let _ ← slice s.source opening.value.stop closing.value.offset
    return ⟨(opening.value.stop, closing.value.offset), closing.rest,
      closing.follows.of_resetTo.trans opening.follows⟩

section
variable (mode : Mode) (f : Frame) (read : Calls f)

/-- Reads a range between parentheses, of which it is known that it is not empty. -/
def readRange (source : String) (start stop : Nat) (inValuePath : Bool) :
    Guarded (Option Node) := do
  let inner ← scanRange mode source start stop
  let step ← call read ⟨start, stop, inner⟩ inValuePath
  return step.value

/-- Reads `( body )`. There is nothing in between if the range is empty. -/
def readEnclosed (empty : Nat → Event) (s : TokenStream) (inValuePath : Bool) :
    Guarded (Step s (Option Node)) := do
  let range ← enclosed s
  let (start, stop) := range.value
  if stop ≤ start then
    note (empty stop)
    return range.map fun _ => none
  else
    let node? ← readRange mode f read s.source start stop inValuePath
    return range.map fun _ => node?

end

/-! ### The grammar -/

/-- The steps on a text that is left in one piece. -/
def operations : Operations Guarded where
  scan mode input := scanRange mode input 0 input.utf8ByteSize
  take := take
  pathOf := pathOf
  literal? := literal?
  subAttribute t := slice t.text 1 t.text.utf8ByteSize
  remaining s := difference s.tokens.length s.position
  note := note
  refuse := refuse

/-- Reading from a frame, given how to read from the frames below. -/
def reading (mode : Mode) (f : Frame) (read : Calls f) : Reading Guarded f.stream where
  toOperations := operations
  read t _ := call read ⟨f.start, f.stop, t⟩
  enclosed empty t _ := readEnclosed mode f read empty t

/-- Reads an expression. -/
def readExpression (mode : Mode) (f : Frame) (inValuePath : Bool) :
    Guarded (Step f.stream (Option Node)) :=
  (reading mode f fun g _ => readExpression mode g).expression inValuePath
termination_by Frame.wellFounded_below.wrap f

/-- The parser that reads a text in this way. -/
def parser (mode : Mode) (input : String) : Parser Guarded where
  toOperations := operations
  reading s := reading mode ⟨0, input.utf8ByteSize, s⟩ fun g _ => readExpression mode g

/-- Reads a filter. -/
def attemptFilter (input : String) : Guarded (Option Node) :=
  (parser .filter input).filter input

/-- Reads a PATCH path. -/
def attemptPath (input : String) : Guarded PathExpression :=
  (parser .path input).path input

end Guarded

end Scim
