import Scim.Number.Shortest

/-!
# `Scim.Number.Layout`: floating-point numbers as text

A `Layout` holds the decisions of one textual format for binary64 numbers: when they are written
positionally, how an exponent looks, which way ties go. `Layout.write` is the same for all of them.

There are three formats, each next to what is written in it: of literals (`Scim.Value`), of JSON
(`Scim.Json.Pretty`) and of dumps (`Scim.Node.Dump`). They write the fewest digits that are read
back as the number (`Scim.Number.Shortest`), or all digits of an integral number if the layout says
so.
-/

set_option autoImplicit false

namespace Scim.Number

/-- The decisions of a textual format for binary64 numbers. -/
structure Layout where
  /-- The least exponent of a leading digit that is written positionally, if there is one. -/
  leastPositional : Option Int
  /-- The greatest exponent of a leading digit that is written positionally, if there is one. -/
  greatestPositional : Option Int
  /-- Whether a number without a fractional part is written with all the digits of its value. -/
  exactIntegers : Bool
  /-- Whether a positive exponent has a plus sign. -/
  plusSign : Bool
  /-- Which of two equally near shortest decimals is written. -/
  tie : Tie

namespace Layout

/-- Digits written with a point after the first `point` of them; zeros fill up the places on either
side. -/
def positional (ds : List Char) (point : Int) : List Char :=
  if point ≤ 0 then '0' :: '.' :: (List.replicate (-point).toNat '0' ++ ds)
  else if point < ds.length then ds.take point.toNat ++ '.' :: ds.drop point.toNat
  else ds ++ List.replicate (point.toNat - ds.length) '0' ++ ['.', '0']

/-- Digits written with a point after the first one, if others follow, and an exponent. -/
def scientific (plusSign : Bool) (ds : List Char) (exponent : Int) : List Char :=
  let mantissa :=
    match ds with
    | d :: e :: rest => d :: '.' :: e :: rest
    | ds => ds
  let sign := if exponent < 0 then ['-'] else if plusSign then ['+'] else []
  mantissa ++ 'e' :: (sign ++ digits exponent.natAbs)

/-- The absolute value of a finite number. -/
def writeFinite (layout : Layout) (x : Binary64) : List Char :=
  if x.magnitude = 0 then ['0', '.', '0']
  else if layout.exactIntegers && x.isIntegral then
    digits (x.ratio.1 / x.ratio.2) ++ ['.', '0']
  else
    let d := x.shortest layout.tie
    let exponent := d.order - 1
    if (layout.leastPositional.all (· ≤ exponent)) &&
        (layout.greatestPositional.all (exponent ≤ ·)) then
      positional (digits d.coefficient) d.order
    else
      scientific layout.plusSign (digits d.coefficient) exponent

/-- A number in this layout. -/
def write (layout : Layout) (x : Binary64) : String :=
  if x.isNaN then "NaN"
  else
    String.ofList ((if x.isNegative then ['-'] else []) ++
      (if x.isFinite then layout.writeFinite x else ['i', 'n', 'f']))

end Layout

end Scim.Number
