import Scim.Text.Quoted

/-!
# `Scim.Dump`: data written out with the names of its parts

A dump shows a value as the constructor it was made with and the parts it was made of, each part on
a line of its own, four spaces deeper, and followed by a comma.
-/

set_option autoImplicit false

namespace Scim

/-- A value to be dumped. -/
inductive Dump where
  /-- Something on one line. -/
  | atom (text : String)
  /-- A constructor and its argument. -/
  | call (name : String) (argument : Dump)
  /-- A record and its fields, of which there is at least one. -/
  | record (name : String) (fields : List (String × Dump))
  /-- A list. -/
  | list (elements : List Dump)

namespace Dump

/-- A text between quotes. -/
def text (text : String) : Dump :=
  .atom (Text.quoted text)

/-- Something that may be missing. -/
def optional : Option Dump → Dump
  | some dump => .call "Some" dump
  | none => .atom "None"

/-- The start of a line at this depth. -/
def lineStart (depth : Nat) : String :=
  "\n" ++ String.ofList (List.replicate (4 * depth) ' ')

mutual
/-- A dump as text, at the given depth. -/
def renderAt (depth : Nat) : Dump → String
  | .atom text => text
  | .call name argument =>
    name ++ "(" ++ lineStart (depth + 1) ++ renderAt (depth + 1) argument ++ "," ++
      lineStart depth ++ ")"
  | .record name fields =>
    name ++ " \x7b" ++ renderFields (depth + 1) fields ++ lineStart depth ++ "\x7d"
  | .list [] => "[]"
  | .list (first :: rest) =>
    "[" ++ lineStart (depth + 1) ++ renderAt (depth + 1) first ++ "," ++
      renderElements (depth + 1) rest ++ lineStart depth ++ "]"

/-- The fields of a record, each on its line. -/
def renderFields (depth : Nat) : List (String × Dump) → String
  | [] => ""
  | (name, dump) :: fields =>
    lineStart depth ++ name ++ ": " ++ renderAt depth dump ++ "," ++ renderFields depth fields

/-- Elements of a list, each on its line. -/
def renderElements (depth : Nat) : List Dump → String
  | [] => ""
  | element :: elements =>
    lineStart depth ++ renderAt depth element ++ "," ++ renderElements depth elements
end

/-- A dump as text. -/
def render (dump : Dump) : String :=
  dump.renderAt 0

end Dump

end Scim
