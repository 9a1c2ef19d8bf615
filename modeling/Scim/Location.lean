/-!
# `Scim.Location`: lines and columns of a text

A `Location` is a place between two characters of a text: its byte offset together with the line
and column a reader would give for it. `Location.locate` finds the place for any offset: an offset
beyond the end means the end, and one inside a character means the start of that character.
-/

set_option autoImplicit false

namespace Scim

/-- A place in a text. Lines and columns count from one, columns count characters, and the
position is a byte offset into the UTF-8 text. -/
structure Location where
  line : Nat
  column : Nat
  position : Nat
  deriving DecidableEq, Repr

namespace Location

/-- The place before the first character. -/
def start : Location := ⟨1, 1, 0⟩

/-- The place after one more character. A newline starts a new line. -/
def after (l : Location) (c : Char) : Location :=
  if c = '\n' then ⟨l.line + 1, 1, l.position + c.utf8Size⟩
  else ⟨l.line, l.column + 1, l.position + c.utf8Size⟩

/-- The place reached from `l` by walking over those characters that lie wholly within the next
`bytes` bytes. -/
def walk (l : Location) : List Char → Nat → Location
  | [], _ => l
  | c :: cs, bytes => if c.utf8Size ≤ bytes then walk (l.after c) cs (bytes - c.utf8Size) else l

/-- The place of a byte offset in a text. -/
def locate (source : String) (position : Nat) : Location :=
  walk start source.toList position

/-- The place in words, as messages show it. -/
def describe (l : Location) : String :=
  s!"line {l.line}, column {l.column}"

end Location

end Scim
