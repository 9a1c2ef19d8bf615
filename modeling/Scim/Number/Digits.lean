/-!
# `Scim.Number.Digits`: natural numbers and integers in decimal digits

`digits` writes a natural number with the fewest digits, `ofDigits` reads a run of digits back.
-/

set_option autoImplicit false

namespace Scim.Number

/-- The digit for a number below ten. -/
def digitChar (d : Nat) : Char :=
  Char.ofNat (d + '0'.toNat)

/-- The number a digit stands for. -/
def digitValue (c : Char) : Nat :=
  c.toNat - '0'.toNat

/-- The decimal digits of a natural number, the most significant first. There is always at least
one digit, and the first is `0` only for zero itself. -/
def digits (n : Nat) : List Char :=
  if n < 10 then [digitChar n] else digits (n / 10) ++ [digitChar (n % 10)]
termination_by n

/-- The natural number that a list of digits writes, leading zeros allowed. -/
def ofDigits (ds : List Char) : Nat :=
  ds.foldl (fun n c => 10 * n + digitValue c) 0

/-- An integer in decimal, with a minus sign when it is negative. -/
def integerText (n : Int) : String :=
  String.ofList (if n < 0 then '-' :: digits n.natAbs else digits n.natAbs)

/-- Takes a sign off the front of a text. The first component says whether it was a minus. -/
def splitSign : List Char → Bool × List Char
  | '-' :: cs => (true, cs)
  | '+' :: cs => (false, cs)
  | cs => (false, cs)

/-- Reads an integer: an optional sign and at least one digit, and nothing else. -/
def readInteger? (cs : List Char) : Option Int :=
  let (negative, ds) := splitSign cs
  if ds ≠ [] ∧ ds.all Char.isDigit then
    some (if negative then -(ofDigits ds : Int) else ofDigits ds)
  else none

/-- An integer in 64 bits, if it fits. -/
def toInt64? (n : Int) : Option Int64 :=
  if Int64.minValue.toInt ≤ n ∧ n ≤ Int64.maxValue.toInt then some (Int64.ofInt n) else none

end Scim.Number
