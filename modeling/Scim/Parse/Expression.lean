import Scim.Parse.Reading
import Scim.Token.Literal
import Scim.Token.Scan

/-!
# `Scim.Parse.Expression`: reading expressions from lists of tokens

The grammar of `Scim.Parse.Reading`, carried out on lists of tokens with records of what happens. A
body is found by matching parentheses and then scanned and read on its own, so that a group is
always a single operand.

What is done with a body, and which error is made of a fault, are parameters (`Policy`), so that
other readers can be compared with that of the program. `Policy.rescanning` is the one of the
program.

Reading an expression reads at least one token, so what is left is lighter than what was there. The
body of a group is lighter than the group. This is why `Policy.expression` ends.
-/

set_option autoImplicit false

namespace Scim

/-- How to read the body of a group, given how to read an expression. -/
abbrev BodyReader :=
  (s : TokenStream) → Lighter Attempt s → Group s → Bool → Attempt (Option Node)

/-- Scans the body of a group and reads it as an expression of its own. -/
def readBody (mode : Mode) : BodyReader := fun s read group inValuePath => do
  let inner ← scan mode s.source group.opening.stop (Token.charsOf group.body)
  have lighter := Nat.lt_of_le_of_lt (length_charsOf_le group.body) group.body_lighter
  let step ← read inner.val (Nat.lt_of_le_of_lt inner.property lighter) inValuePath
  return step.value

/-- What reading from lists of tokens leaves open. -/
structure Policy where
  /-- How the body of a group is read. -/
  body : BodyReader
  /-- The error for what is wrong with a stream. -/
  error : TokenStream → Fault → ParseError

namespace Policy

/-- Scans the body of a group again. Errors point at a token. This is how the program reads. -/
def rescanning (mode : Mode) : Policy := ⟨readBody mode, TokenStream.error⟩

/-- The steps on lists of tokens. -/
def operations (policy : Policy) : Operations Attempt where
  scan mode input := do
    let tokens ← Scim.scan mode input 0 input.toList
    return tokens.val
  take := takeToken
  pathOf name := pure (.ofName name)
  literal? t := pure t.literal?
  subAttribute t := pure (String.ofList t.text.toList.tail)
  remaining s := pure s.rest.length
  note := .note
  refuse s fault := .fail (policy.error s fault)

/-- Reads `( body )`. -/
def enclosed (policy : Policy) (s : TokenStream) (read : Lighter Attempt s)
    (empty : Nat → Event) (inValuePath : Bool) : Attempt (Step s (Option Node)) := do
  let group ← takeGroup s
  if group.body = [] then
    .note (empty group.closing.offset)
    return ⟨none, group.rest, group.follows⟩
  else
    let node? ← policy.body s read group inValuePath
    return ⟨node?, group.rest, group.follows⟩

/-- Reading from a stream, given how to read from lighter ones. -/
def reading (policy : Policy) (s : TokenStream) (read : Lighter Attempt s) : Reading Attempt s where
  toOperations := policy.operations
  read := read
  enclosed empty t h := policy.enclosed t (fun u hu => read u (Nat.lt_of_lt_of_le hu h)) empty

/-- The program makes of a fault the error that `TokenStream.error` says. -/
@[simp]
theorem rescanning_error (mode : Mode) (s : TokenStream) (fault : Fault) :
    (rescanning mode).error s fault = s.error fault := rfl

section
variable (policy : Policy) {s : TokenStream} (read : Lighter Attempt s)

/-- A name is taken apart without anything that could go wrong. -/
@[simp]
theorem operations_pathOf (name : String) :
    policy.operations.pathOf name = pure (.ofName name) := rfl

/-- The value of a literal is that of `Token.literal?`. -/
@[simp]
theorem operations_literal? (t : Token) : policy.operations.literal? t = pure t.literal? := rfl

/-- Events are recorded as they are. -/
@[simp]
theorem operations_note (e : Event) : policy.operations.note e = .note e := rfl

/-- To fail is to fail with the error of the policy. -/
@[simp]
theorem operations_refuse {α : Type} (s : TokenStream) (fault : Fault) :
    (policy.operations.refuse s fault : Attempt α) = .fail (policy.error s fault) := rfl

/-- The steps of a reading are those of its policy. -/
@[simp]
theorem reading_toOperations :
    (policy.reading s read).toOperations = policy.operations := rfl

/-- A reading leaves parentheses to its policy, which reads the body as an expression of its own. -/
@[simp]
theorem reading_enclosed (empty : Nat → Event) (t : TokenStream) (h : t.weight ≤ s.weight)
    (inValuePath : Bool) : (policy.reading s read).enclosed empty t h inValuePath
      = policy.enclosed t (fun u hu => read u (Nat.lt_of_lt_of_le hu h)) empty inValuePath := rfl

/-- Behind a step the same policy goes on reading, on what is left. -/
@[simp]
theorem reading_after {α : Type} (step : Step s α) : (policy.reading s read).after step
    = policy.reading step.rest fun t h => read t (Nat.lt_trans h step.lighter) := rfl

end

/-- Reads an expression. -/
def expression (policy : Policy) (s : TokenStream) (inValuePath : Bool) :
    Attempt (Step s (Option Node)) :=
  (policy.reading s fun t _ => policy.expression t).expression inValuePath
termination_by s.weight

/-- The parser that reads in this way. -/
def parser (policy : Policy) : Parser Attempt where
  toOperations := policy.operations
  reading s := policy.reading s fun t _ => policy.expression t

/-- The parser reads every stream with `Policy.expression` inside. -/
@[simp]
theorem parser_reading (policy : Policy) (s : TokenStream) :
    policy.parser.reading s = policy.reading s fun t _ => policy.expression t := rfl

end Policy

end Scim
