import Scim.AttributePath
import Scim.Operator
import Scim.Text.Quoted
import Scim.Token.Basic

/-!
# `Scim.Parse.Event`: what is recorded while an expression is read

Each step of reading that someone may want to follow is an event. It has a level, the part of the
program that records it, and a message.
-/

set_option autoImplicit false

namespace Scim

/-- How detailed a record is. -/
inductive Level where
  | debug
  | trace
  deriving DecidableEq, Repr

/-- The name of a level. -/
def Level.name : Level → String
  | .debug => "DEBUG"
  | .trace => "TRACE"

/-- Something that happens while an expression is read. -/
inductive Event where
  /-- Reading starts. -/
  | parsing (mode : Mode) (input : String)
  /-- A text has been divided into tokens. -/
  | scanned (mode : Mode) (count : Nat) (text : String)
  /-- No token starts at an offset of the whole expression. -/
  | unscannable (offset : Nat) (source : String)
  /-- There is nothing between two parentheses, the second being at this offset. -/
  | emptyGroup (offset : Nat)
  /-- There is nothing to negate between two parentheses, the second being at this offset. -/
  | emptyNegation (offset : Nat)
  /-- The predicate of a value path is empty or not allowed. -/
  | noPredicate (path : AttributePath)
  /-- A logical operator is followed by an empty expression. -/
  | noRightOperand (operator : LogicalOperator) (offset : Nat)
  /-- Tokens are left after a complete filter. -/
  | trailing (count : Nat) (input : String)
  deriving DecidableEq, Repr

namespace Event

/-- The level of an event. -/
def level : Event → Level
  | parsing _ _ | noPredicate _ | noRightOperand _ _ => .debug
  | scanned _ _ _ | unscannable _ _ | emptyGroup _ | emptyNegation _ | trailing _ _ => .trace

/-- The part of the program that records an event. -/
def target : Event → String
  | parsing _ _ | trailing _ _ => "scim_filter::parser"
  | scanned _ _ _ | unscannable _ _ => "scim_filter::parser::tokenizer"
  | emptyGroup _ | emptyNegation _ | noPredicate _ | noRightOperand _ _ =>
    "scim_filter::parser::grammar"

/-- An event in words. -/
def message : Event → String
  | parsing mode input => s!"parsing {mode.name} {Text.quoted input}"
  | scanned mode count text => s!"scanned {count} {mode.name} tokens from {Text.quoted text}"
  | unscannable offset source =>
    s!"no token pattern matches at offset {offset} of {Text.quoted source}"
  | emptyGroup offset => s!"empty group ends at offset {offset}"
  | emptyNegation offset => s!"empty negation ends at offset {offset}"
  | noPredicate path => s!"value path `{path.render}` has no valid predicate"
  | noRightOperand operator offset =>
    s!"`{operator.keyword}` at offset {offset} has no right operand"
  | trailing count input => s!"ignoring {count} trailing tokens of filter {Text.quoted input}"

/-- The record of an event. -/
def render (e : Event) : String :=
  s!"{e.level.name} {e.target}: {e.message}"

end Event

end Scim
