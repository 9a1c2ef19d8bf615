import Scim.Node.Basic
import Scim.Parse.Event
import Scim.Parse.Step

/-!
# `Scim.Parse.Reading`: the grammar

    expression  := primary (LOGICAL expression)?
    primary     := "(" body ")" | NOT "(" body ")" | NAME value-path | NAME comparison
    value-path  := "[" expression "]"
    comparison  := " pr" | OPERATOR literal
    path        := NAME | NAME value-path SUB-ATTRIBUTE?

Logical operators nest to the right and have no precedence: `a and b or c` is the conjunction of `a`
and of `b or c`. An empty group or negation at the start of an expression makes the whole expression
empty, which is no error there; it is one after a logical operator and inside a value path.

The grammar is written once, for every way to carry it out:

* `Operations` are the steps that do not read an expression, in some monad: scanning a text, taking
  a token, finding the value of a literal, failing.
* `Reading` adds how an expression inside of the one at hand is read, from the same stream or from
  between parentheses. `Reading.expression` is the grammar of expressions.
* `Reading.filter` and `Reading.path` read all that there is.
* `Parser` has a reading for every stream, so `Parser.filter` and `Parser.path` read texts.

The parser of the program is an instance over lists of tokens (`Scim.Parse.Expression`).
-/

set_option autoImplicit false

namespace Scim

/-- The steps of a parser that do not read an expression. -/
structure Operations (m : Type → Type) where
  /-- Divides a text into tokens. -/
  scan : Mode → String → m TokenStream
  /-- Takes the next token, which must be of one of the given kinds. -/
  take : List TokenKind → (s : TokenStream) → m (Step s Token)
  /-- The path that a name stands for. -/
  pathOf : String → m AttributePath
  /-- The value of a literal, if it has one. -/
  literal? : Token → m (Option Value)
  /-- The name in a sub-attribute, which starts with a dot. -/
  subAttribute : Token → m String
  /-- How many tokens are left. -/
  remaining : TokenStream → m Nat
  /-- Records an event. -/
  note : Event → m Unit
  /-- Fails because of what is wrong with a stream. -/
  refuse : {α : Type} → TokenStream → Fault → m α

/-- How to read an expression from any stream lighter than the given one, inside of a value path or
not. The value is absent if there is nothing but an empty group or negation. -/
abbrev Lighter (m : Type → Type) (s : TokenStream) :=
  (t : TokenStream) → t.weight < s.weight → Bool → m (Step t (Option Node))

/-- The operations of a parser, and how it reads the expressions inside of one that starts at a
given stream. -/
structure Reading (m : Type → Type) (s : TokenStream) extends Operations m where
  /-- Reads an expression further on in the same tokens. -/
  read : Lighter m s
  /-- Reads `( body )`, the body as an expression of its own. If there is nothing in between, this
  is recorded with the offset of the closing parenthesis, and the value is absent. Tokens that are
  left over in a body are ignored. -/
  enclosed : (Nat → Event) → (t : TokenStream) → t.weight ≤ s.weight → Bool →
    m (Step t (Option Node))

variable {m : Type → Type} [Monad m] {s : TokenStream}

/-- Reads the operator and the literal of a comparison. -/
def Operations.comparison (ops : Operations m) (path : AttributePath) (s : TokenStream) :
    m (Step s Comparison) := do
  let word ← ops.take [.comparisonOperator] s
  match Operator.read word.value.text with
  | .error _ => ops.refuse s (.operator word.value)
  | .ok operator =>
    if operator.isUnary then
      return word.map fun _ => .present path
    else
      let literal ← ops.take TokenKind.literals word.rest
      let value? ← ops.literal? literal.value
      match value? with
      | none => ops.refuse s (.literal literal.value)
      | some value => return word.andThen (literal.map fun _ => .make path operator (some value))

/-- Reads a sub-attribute after a value path, if there is one. -/
def Operations.withSubAttribute (ops : Operations m) (valuePath : ValuePath) (s : TokenStream) :
    m (ValuePath × TokenStream) :=
  if s.isNext [.subAttribute] then do
    let sub ← ops.take [.subAttribute] s
    let name ← ops.subAttribute sub.value
    return (valuePath.withSubAttribute name, sub.rest)
  else return (valuePath, s)

namespace Reading

variable (r : Reading m s)

/-- Reading goes on behind a step. -/
def after {α : Type} (step : Step s α) : Reading m step.rest where
  toOperations := r.toOperations
  read t h := r.read t (Nat.lt_trans h step.lighter)
  enclosed empty t h := r.enclosed empty t (Nat.le_trans h (Nat.le_of_lt step.lighter))

/-- Reads `[ expression ]` after the name of a collection. The predicate must not be empty, and it
must be possible to put it below the collection. -/
def valuePath (collection : AttributePath) : m (Step s ValuePath) := do
  let bracket ← r.take [.bracketOpen] s
  let predicate ← r.read bracket.rest bracket.lighter true
  let closing ← r.take [.bracketClose] predicate.rest
  match predicate.value.bind (Node.rootedAt? collection) with
  | none =>
    r.note (.noPredicate collection)
    r.refuse bracket.rest .predicate
  | some rooted =>
    return bracket.andThen (predicate.andThen (closing.map fun _ => .make collection rooted))

/-- Reads what starts with a name: a comparison, or outside of value paths a value path of a single
name. -/
def named (inValuePath : Bool) : m (Step s Node) := do
  let name ← r.take [.name] s
  let path ← r.pathOf name.value.text
  if name.rest.isNext [.bracketOpen] then
    if inValuePath || 1 < path.length then r.refuse name.rest .last
    else
      let valuePath ← (r.after name).valuePath path
      return name.andThen (valuePath.map ValuePath.toNode)
  else
    let comparison ← r.comparison path name.rest
    return name.andThen (comparison.map Node.comparison)

/-- Reads `not ( body )`. -/
def negation (inValuePath : Bool) : m (Step s (Option Node)) := do
  let word ← r.take [.negation] s
  let body ← r.enclosed .emptyNegation word.rest (Nat.le_of_lt word.lighter) inValuePath
  return word.andThen (body.map (Option.map Node.negation))

/-- Reads the first operand of an expression. The body of a group may hold value paths wherever the
group stands, the body of a negation only outside of value paths. -/
def primary (inValuePath : Bool) : m (Step s (Option Node)) :=
  if s.isNext [.parenOpen] then r.enclosed .emptyGroup s (Nat.le_refl _) false
  else if s.isNext [.negation] then r.negation inValuePath
  else if s.isNext [.name] then do
    let node ← r.named inValuePath
    return node.map some
  else r.refuse s .last

/-- Reads a logical operator and the expression after it, which must not be empty, and joins it to
what is on the left. -/
def connective (left : Node) (inValuePath : Bool) : m (Step s Node) := do
  let word ← r.take [.logicalOperator] s
  match LogicalOperator.read word.value.text with
  | .error _ => r.refuse s (.connective word.value)
  | .ok operator =>
    let right ← r.read word.rest word.lighter inValuePath
    match right.value with
    | none =>
      r.note (.noRightOperand operator word.value.offset)
      r.refuse word.rest.advance .last
    | some node => return word.andThen (right.map fun _ => .joined operator left node)

/-- Reads an expression. The value is absent if the expression starts with an empty group or
negation. -/
def expression (inValuePath : Bool) : m (Step s (Option Node)) := do
  let first ← r.primary inValuePath
  match first.value with
  | none => return first
  | some left =>
    if first.rest.isNext [.logicalOperator] then
      let whole ← (r.after first).connective left inValuePath
      return first.andThen (whole.map some)
    else return first

/-- Reads a filter. Tokens after a complete expression are ignored. -/
def filter (input : String) : m (Option Node) := do
  let step ← r.expression false
  if step.rest.hasNext then
    let count ← r.remaining step.rest
    r.note (.trailing count input)
  return step.value

/-- Reads a PATCH path: an attribute name or a value path, possibly followed by a sub-attribute.
Unlike in a filter, nothing may follow. -/
def path : m PathExpression := do
  if !s.isNext [.name] then r.refuse s .path
  else
    let name ← r.take [.name] s
    let path ← r.pathOf name.value.text
    if !name.rest.hasNext then return .attribute path
    else if !name.rest.isNext [.bracketOpen] then r.refuse name.rest .next
    else if 1 < path.length then r.refuse name.rest .last
    else
      let step ← (r.after name).valuePath path
      let (valuePath, rest) ← r.withSubAttribute step.value step.rest
      if rest.hasNext then r.refuse rest .next
      else return .value valuePath

end Reading

/-- The operations of a parser, and how it reads an expression from any stream. -/
structure Parser (m : Type → Type) extends Operations m where
  reading : (s : TokenStream) → Reading m s

namespace Parser

variable (p : Parser m)

/-- Divides a text into tokens and reads a filter from them. -/
def filter (input : String) : m (Option Node) := do
  p.note (.parsing .filter input)
  let s ← p.scan .filter input
  (p.reading s).filter input

/-- Divides a text into tokens and reads a PATCH path from them. -/
def path (input : String) : m PathExpression := do
  p.note (.parsing .path input)
  let s ← p.scan .path input
  (p.reading s).path

end Parser

end Scim
