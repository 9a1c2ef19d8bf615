import Scim.Token.Basic
import Scim.Text.Case
import Scim.Value

/-!
# `Scim.Token.Literal`: the values of literal tokens
-/

set_option autoImplicit false

namespace Scim.Token

/-- A text without its first and its last character. -/
def unquoted (text : String) : String :=
  String.ofList text.toList.tail.dropLast

/-- The value of a literal token. A string is what stands between its quotes. -/
def literal? (t : Token) : Option Value :=
  match t.kind with
  | .string => some (.string (unquoted t.text))
  | .number => Value.ofNumber? t.text
  | .boolean => some (.boolean (Text.sameIgnoringCase t.text "true"))
  | .null => some .null
  | _ => none

end Scim.Token
