/-!
# `Scim.Text.Case`: letters in either case

Two notions of "the same letter" are in use. Keywords and names of a *scanned* expression are
recognised up to `foldCase`, which follows Unicode simple case folding: besides the capital ASCII
letters it takes the long s (U+017F) to `s` and the Kelvin sign (U+212A) to `k`, and no other
character to an ASCII letter. Texts that are *compared* with each other, such as operator keywords
and attribute names, are equal up to the case of ASCII letters only (`sameIgnoringCase`).
-/

set_option autoImplicit false

namespace Scim.Text

/-- The long s, which folds to `s`. -/
def longS : Char := '\u017F'

/-- The Kelvin sign, which folds to `k`. -/
def kelvinSign : Char := '\u212A'

/-- Simple case folding, as far as it reaches ASCII: a character that folds to an ASCII letter is
taken to that letter in lower case, any other character to itself. -/
def foldCase (c : Char) : Char :=
  if c = longS then 's' else if c = kelvinSign then 'k' else c.toLower

/-- Whether two texts are equal up to the case of ASCII letters. -/
def sameIgnoringCase (left right : String) : Bool :=
  left.toList.map Char.toLower == right.toList.map Char.toLower

end Scim.Text
