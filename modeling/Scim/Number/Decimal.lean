import Scim.Number.Binary64
import Scim.Number.Digits

/-!
# `Scim.Number.Decimal`: decimal numbers and how they are read

A `Decimal` is a natural number times a power of ten. `Decimal.read?` reads one from text such as
`12`, `1.`, `.5` or `1.5e-3`, and `Decimal.magnitude` rounds it to the nearest binary64 number.

An exponent can be so great that the power of ten would not fit into memory. So the order of
magnitude is looked at first: far outside of the format the answer is zero or infinity, and only in
between is the quotient formed (`Decimal.ratio`) and rounded.
-/

set_option autoImplicit false

namespace Scim.Number

/-- The number `coefficient * 10 ^ exponent`. -/
structure Decimal where
  coefficient : Nat
  exponent : Int
  deriving DecidableEq, Repr

namespace Decimal

/-- The number as a quotient of natural numbers. -/
def ratio (d : Decimal) : Nat × Nat :=
  if 0 ≤ d.exponent then (d.coefficient * Nat.pow 10 d.exponent.toNat, 1)
  else (d.coefficient, Nat.pow 10 (-d.exponent).toNat)

/-- The exponent of the power of ten just above a decimal that is not zero. -/
def order (d : Decimal) : Int :=
  (digits d.coefficient).length + d.exponent

/-- The magnitude of the binary64 number nearest to a decimal. Powers of ten far outside the range
of the format are not computed: from `10 ^ 310` on everything is infinite, and below `10 ^ (-330)`
everything is zero. -/
def magnitude (d : Decimal) : Nat :=
  if d.coefficient = 0 ∨ d.order < -330 then 0
  else if 310 < d.order then Binary64.infinityMagnitude
  else Binary64.nearestMagnitude d.ratio.1 d.ratio.2

/-- Reads the part after the digits: nothing, or an exponent. -/
def readExponent? : List Char → Option Int
  | [] => some 0
  | c :: cs => if c.toLower = 'e' then readInteger? cs else none

/-- Reads digits with an optional point among, before or after them, and an optional exponent.
There must be at least one digit besides those of the exponent. -/
def read? (cs : List Char) : Option Decimal :=
  let whole := cs.takeWhile Char.isDigit
  let (fraction, rest) :=
    match cs.dropWhile Char.isDigit with
    | '.' :: rest => (rest.takeWhile Char.isDigit, rest.dropWhile Char.isDigit)
    | rest => ([], rest)
  if whole ++ fraction = [] then none
  else (readExponent? rest).map fun exponent =>
    ⟨ofDigits (whole ++ fraction), exponent - fraction.length⟩

end Decimal

/-- Reads a binary64 number: an optional sign, then a decimal, `inf`, `infinity` or `nan`, letters
in either case. A decimal is rounded to the nearest number of the format. -/
def Binary64.read? (text : String) : Option Binary64 :=
  let (negative, cs) := splitSign text.toList
  let word := String.ofList (cs.map Char.toLower)
  if word = "inf" ∨ word = "infinity" then some (infinity negative)
  else if word = "nan" then some nan
  else (Decimal.read? cs).map fun d => ofMagnitude negative d.magnitude

end Scim.Number
