/-!
# `Scim.Number.Binary64`: 64-bit floating-point numbers

A `Binary64` is a number of the IEEE 754 format binary64, held as its 64 bits: the sign, then 63
bits of magnitude. Read as natural numbers the magnitudes are in the order of the values they stand
for, and every finite one is `significand * 2 ^ exponent`.

`nearestMagnitude` rounds a quotient of natural numbers to this format, to the nearest value and in
a tie to the one with an even significand. It finds the scale from the place of the leading bit and
divides once, so rounding is exact and needs no floating-point arithmetic. What it does with exact
quotients is in `Scim.Proofs.Number.Rounding`, and which quotients it takes to infinity in
`Scim.Proofs.Number.Range`.
-/

set_option autoImplicit false

namespace Scim.Number

/-- A binary64 number, as its bits. -/
structure Binary64 where
  bits : UInt64
  deriving DecidableEq, Repr

namespace Binary64

/-- Whether the sign bit is set. -/
def isNegative (x : Binary64) : Bool :=
  decide (Nat.pow 2 63 ≤ x.bits.toNat)

/-- All bits but the sign. -/
def magnitude (x : Binary64) : Nat :=
  x.bits.toNat % Nat.pow 2 63

/-- The magnitude of infinity. Greater magnitudes are no numbers. -/
def infinityMagnitude : Nat := 0x7FF0000000000000

/-- The number with the given sign and magnitude. -/
def ofMagnitude (negative : Bool) (magnitude : Nat) : Binary64 :=
  ⟨UInt64.ofNat (if negative then Nat.pow 2 63 + magnitude else magnitude)⟩

/-- Infinity, of either sign. -/
def infinity (negative : Bool) : Binary64 :=
  ofMagnitude negative infinityMagnitude

/-- The quiet NaN without a payload. -/
def nan : Binary64 := ⟨0x7FF8000000000000⟩

/-- Whether this is a NaN. -/
def isNaN (x : Binary64) : Bool :=
  decide (infinityMagnitude < x.magnitude)

/-- Whether this is neither infinite nor a NaN. -/
def isFinite (x : Binary64) : Bool :=
  decide (x.magnitude < infinityMagnitude)

/-- Numerical equality: a NaN differs from everything, itself included, and the two zeros are
equal. -/
def same (x y : Binary64) : Bool :=
  !x.isNaN && !y.isNaN && (x.bits == y.bits || (x.magnitude == 0 && y.magnitude == 0))

/-- The integer that a finite number is a multiple of a power of two of. -/
def significand (x : Binary64) : Nat :=
  if x.magnitude < Nat.pow 2 52 then x.magnitude else Nat.pow 2 52 + x.magnitude % Nat.pow 2 52

/-- How far the exponent is above the least one, which is -1074. -/
def scale (x : Binary64) : Nat :=
  x.magnitude / Nat.pow 2 52 - 1

/-- The absolute value of a finite number as a quotient: its significand times
`2 ^ (scale - 1074)`. -/
def ratio (x : Binary64) : Nat × Nat :=
  if 1074 ≤ x.scale then (x.significand * Nat.pow 2 (x.scale - 1074), 1)
  else (x.significand, Nat.pow 2 (1074 - x.scale))

/-- Whether this is a finite number without a fractional part. -/
def isIntegral (x : Binary64) : Bool :=
  x.isFinite && decide (x.ratio.1 % x.ratio.2 = 0)

/-- The natural number nearest to a quotient, in a tie the even one. -/
def divNearestEven (num den : Nat) : Nat :=
  if 2 * (num % den) < den ∨ (2 * (num % den) = den ∧ num / den % 2 = 0) then num / den
  else num / den + 1

/-- The magnitude nearest to a quotient of natural numbers. In units of the least positive number
the quotient is `num * 2 ^ 1074 / den`. It keeps 53 bits, so a quotient of more is taken in units
greater by a power of two; rounding up to the next power of two carries into the exponent by
itself. What is beyond the greatest finite number becomes infinity. -/
def nearestMagnitude (num den : Nat) : Nat :=
  let scaled := num * Nat.pow 2 1074
  let scale := Nat.log2 (scaled / den) - 52
  min (scale * Nat.pow 2 52 + divNearestEven scaled (den * Nat.pow 2 scale)) infinityMagnitude

/-- The number nearest to an integer. -/
def ofInt (n : Int) : Binary64 :=
  ofMagnitude (decide (n < 0)) (nearestMagnitude n.natAbs 1)

end Binary64

end Scim.Number
