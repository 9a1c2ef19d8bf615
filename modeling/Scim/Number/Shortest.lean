import Scim.Number.Decimal

/-!
# `Scim.Number.Shortest`: the fewest digits that read back

`shortest` finds the decimal with the fewest digits that is rounded to a given binary64 number, and
of those the nearest one. For one digit, two digits and so on it tries the two neighbours of the
number on the grid of decimals with so many digits, the nearer one first. Seventeen digits are
always enough; the exact value stands behind them, so the result reads back in any case.
-/

set_option autoImplicit false

namespace Scim.Number

/-- Which of two equally near neighbours is taken. -/
inductive Tie where
  /-- The greater one. -/
  | up
  /-- The one with the even last digit. -/
  | toEven
  deriving DecidableEq, Repr

namespace Binary64

/-- The exponent of the leading decimal digit of a positive quotient: the greatest `p` such that
`10 ^ p` is not above it. -/
def leadingExponent (num den : Nat) : Int :=
  if den ≤ num then ((digits (num / den)).length : Int) - 1
  else
    let zeros := (digits (den / num)).length - 1
    if den ≤ num * Nat.pow 10 zeros then -zeros else -zeros - 1

/-- The two neighbours of a quotient among the multiples of `10 ^ exponent`, the nearer one
first. -/
def neighbours (tie : Tie) (num den : Nat) (exponent : Int) : List Decimal :=
  let (num, den) :=
    if 0 ≤ exponent then (num, den * Nat.pow 10 exponent.toNat)
    else (num * Nat.pow 10 (-exponent).toNat, den)
  let low := num / den
  let twice := 2 * (num % den)
  let lowFirst := [⟨low, exponent⟩, ⟨low + 1, exponent⟩]
  let highFirst := [⟨low + 1, exponent⟩, ⟨low, exponent⟩]
  if twice < den then lowFirst
  else if den < twice then highFirst
  else
    match tie with
    | .up => highFirst
    | .toEven => if low % 2 = 0 then lowFirst else highFirst

/-- A decimal without the zero at its end, if it has one. The neighbour above nines is a one with
zeros: the two digits of `10` are a digit and a place. -/
def withoutFinalZero (d : Decimal) : Decimal :=
  if d.coefficient % 10 = 0 then ⟨d.coefficient / 10, d.exponent + 1⟩ else d

/-- A decimal of so many digits that is rounded to the number, if there is one; of two the
nearer. -/
def withDigits? (tie : Tie) (x : Binary64) (count : Nat) : Option Decimal :=
  let (num, den) := x.ratio
  ((neighbours tie num den (leadingExponent num den - count + 1)).map withoutFinalZero).find?
    fun d => d.magnitude == x.magnitude

/-- The exact absolute value of a finite number as a decimal. -/
def exact (x : Binary64) : Decimal :=
  if 1074 ≤ x.scale then ⟨x.ratio.1, 0⟩
  else ⟨x.significand * Nat.pow 5 (1074 - x.scale), (x.scale : Int) - 1074⟩

/-- The shortest decimal that is rounded to the absolute value of a finite number other than
zero. -/
def shortest (tie : Tie) (x : Binary64) : Decimal :=
  ((List.range 17).findSome? fun n => x.withDigits? tie (n + 1)).getD x.exact

end Binary64

end Scim.Number
