import Scim.Text.CharRanges

/-!
# `Scim.Text.Blank`: blank characters

Blanks separate the keywords of an expression. They are the characters of the Unicode property
White_Space: the space, tab, line ends and the wider spaces, but not the zero-width ones.
-/

set_option autoImplicit false

namespace Scim.Text

/-- The characters of the property White_Space. -/
def blankRanges : CharRanges :=
  [(0x0009, 0x000D), (0x0020, 0x0020), (0x0085, 0x0085), (0x00A0, 0x00A0), (0x1680, 0x1680),
   (0x2000, 0x200A), (0x2028, 0x2029), (0x202F, 0x202F), (0x205F, 0x205F), (0x3000, 0x3000)]

/-- The table of blanks is one that `CharRanges.covers_iff` can be used on. -/
theorem ascendFrom_blankRanges : blankRanges.ascendFrom 0 = true := by decide +kernel

/-- Whether a character is blank. -/
def isBlank (c : Char) : Bool :=
  blankRanges.covers c.toNat

/-- A list of characters without the blanks at either end. -/
def trimBlanks (cs : List Char) : List Char :=
  ((cs.dropWhile isBlank).reverse.dropWhile isBlank).reverse

/-- A text without the blanks at either end. -/
def trimmed (text : String) : String :=
  String.ofList (trimBlanks text.toList)

end Scim.Text
