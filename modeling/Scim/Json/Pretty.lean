import Scim.Json.Basic
import Scim.Number.Layout

/-!
# `Scim.Json.Pretty`: JSON as indented text

Each element of an array and each entry of an object stands on a line of its own, two spaces deeper
than the value it belongs to. Only an empty array or object stays on one line.
-/

set_option autoImplicit false

namespace Scim.Json

/-- Floats in JSON have a fraction, are positional from `1e-5` up to `1e16`, and have a sign on
every exponent. -/
def floatLayout : Number.Layout where
  leastPositional := some (-5)
  greatestPositional := some 15
  exactIntegers := false
  plusSign := true
  tie := .toEven

/-- A number below 256 as two hexadecimal digits. -/
def hexByte (n : Nat) : List Char :=
  [Nat.digitChar (n / 16), Nat.digitChar (n % 16)]

/-- A character inside a JSON string. Quotes, backslashes and control characters are escaped. -/
def stringChar (c : Char) : List Char :=
  if c = '"' || c = '\\' then ['\\', c]
  else if c = '\n' then ['\\', 'n']
  else if c = '\r' then ['\\', 'r']
  else if c = '\t' then ['\\', 't']
  else if c.toNat = 0x08 then ['\\', 'b']
  else if c.toNat = 0x0C then ['\\', 'f']
  else if c.toNat < 0x20 then ['\\', 'u', '0', '0'] ++ hexByte c.toNat
  else [c]

/-- A JSON string. -/
def stringText (text : String) : String :=
  String.ofList ('"' :: (text.toList.flatMap stringChar ++ ['"']))

/-- The start of a line at this depth. -/
def lineStart (depth : Nat) : String :=
  "\n" ++ String.ofList (List.replicate (2 * depth) ' ')

mutual
/-- A value as text, at the given depth. -/
def prettyAt (depth : Nat) : Json → String
  | .null => "null"
  | .bool true => "true"
  | .bool false => "false"
  | .int n => Number.integerText n
  | .float x => if x.isFinite then floatLayout.write x else "null"
  | .string text => stringText text
  | .array [] => "[]"
  | .array (first :: rest) =>
    "[" ++ lineStart (depth + 1) ++ prettyAt (depth + 1) first ++ prettyElements (depth + 1) rest ++
      lineStart depth ++ "]"
  | .object [] => "\x7b\x7d"
  | .object ((name, value) :: rest) =>
    "\x7b" ++ lineStart (depth + 1) ++ stringText name ++ ": " ++ prettyAt (depth + 1) value ++
      prettyEntries (depth + 1) rest ++ lineStart depth ++ "\x7d"

/-- The further elements of an array, each after a comma. -/
def prettyElements (depth : Nat) : List Json → String
  | [] => ""
  | element :: elements =>
    "," ++ lineStart depth ++ prettyAt depth element ++ prettyElements depth elements

/-- The further entries of an object, each after a comma. -/
def prettyEntries (depth : Nat) : List (String × Json) → String
  | [] => ""
  | (name, value) :: entries =>
    "," ++ lineStart depth ++ stringText name ++ ": " ++ prettyAt depth value ++
      prettyEntries depth entries
end

/-- A value as indented text. -/
def pretty (json : Json) : String :=
  json.prettyAt 0

end Scim.Json
