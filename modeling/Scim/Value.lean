import Scim.Number.Layout

/-!
# `Scim.Value`: literals

The right-hand side of a comparison is a string, a number, a truth value or `null`. Numbers come in
two kinds: 64-bit integers, and binary64 numbers for those with a point and those too great for an
integer. `Value.ofNumber?` decides between them, by reading an integer first.

`Value.render` writes a value as a literal. A finite float is written with a point, also where it
has no fraction, so that it is not read as an integer. A string is written as it is. There are no
escapes, so a quote in it cannot be written.

What a literal token stands for is in `Scim.Token.Literal`.
-/

set_option autoImplicit false

namespace Scim

open Number (Binary64)

/-- A literal. -/
inductive Value where
  | string (text : String)
  | integer (value : Int64)
  | float (value : Binary64)
  | boolean (value : Bool)
  | null
  deriving DecidableEq, Repr

namespace Value

/-- The integer, if it fits into 64 bits, else the nearest float. -/
def ofInt (n : Int) : Value :=
  match Number.toInt64? n with
  | some n => .integer n
  | none => .float (Binary64.ofInt n)

/-- Reads a number. A text with a point is a float. Any other text is an integer if it reads as one
that fits into 64 bits, and else a float. -/
def ofNumber? (text : String) : Option Value :=
  if '.' ∈ text.toList then (Binary64.read? text).map .float
  else
    match (Number.readInteger? text.toList).bind Number.toInt64? with
    | some n => some (.integer n)
    | none => (Binary64.read? text).map .float

/-- Floats in an expression are never written with an exponent, which could not be scanned. One
without a fractional part has all the digits of its value and a fraction `.0`, so that it stays a
float. -/
def floatLayout : Number.Layout where
  leastPositional := none
  greatestPositional := none
  exactIntegers := true
  plusSign := false
  tie := .up

/-- The literal in an expression. Strings stand between quotes as they are. -/
def render : Value → String
  | .string text => "\"" ++ text ++ "\""
  | .integer n => Number.integerText n.toInt
  | .float x => floatLayout.write x
  | .boolean true => "true"
  | .boolean false => "false"
  | .null => "null"

/-- Equality of literals; floats are compared as numbers. -/
def same : Value → Value → Bool
  | .string a, .string b => a == b
  | .integer a, .integer b => a == b
  | .float a, .float b => a.same b
  | .boolean a, .boolean b => a == b
  | .null, .null => true
  | _, _ => false

/-- The text of a string. -/
def string? : Value → Option String
  | .string text => some text
  | _ => none

/-- The value of an integer. -/
def integer? : Value → Option Int64
  | .integer n => some n
  | _ => none

/-- The value of a number of either kind, as a float. -/
def float? : Value → Option Binary64
  | .integer n => some (Binary64.ofInt n.toInt)
  | .float x => some x
  | _ => none

/-- The truth value. -/
def boolean? : Value → Option Bool
  | .boolean b => some b
  | _ => none

/-- Whether this is `null`. -/
def isNull : Value → Bool
  | .null => true
  | _ => false

end Value

end Scim
