import Scim.Location
import Scim.Token.Basic

/-!
# `Scim.ParseError`: why an expression is refused

Every cause keeps what a caller may want to know about it: the text at fault, what kind of token it
is and where it stands. `ParseError.message` puts a cause into words.

The accessors answer for any error, with nothing where the error does not say. Two errors have no
place, because there is no token to blame: the text is empty, or it ends too early. Lexical errors
(`isLexical`) quote the text where no token starts. The text of the others is that of a token.

That the places are right is shown in `Scim.Proofs.Parse.Refusals`, and what each kind of error says
about the text in `Scim.Proofs.Parse.ErrorKinds`.
-/

set_option autoImplicit false

namespace Scim

/-- Why an expression is refused. -/
inductive ParseError where
  /-- No token starts here. The fragment is the beginning of what could not be read. -/
  | unrecognizedInput (fragment : String) (location : Location)
  /-- The expression ends where a token is required. -/
  | unexpectedEnd
  /-- The next token is not of a kind that is required here. -/
  | tokenMismatch (text : String) (kind : TokenKind) (expected : List TokenKind)
      (location : Location)
  /-- A token stands where it is not allowed. -/
  | unexpectedToken (text : String) (kind : TokenKind) (location : Location)
  /-- There is no token at all. -/
  | emptyInput
  /-- The predicate of a value path is empty or holds a value path. -/
  | invalidValuePath (text : String) (location : Location)
  /-- A path does not start with an attribute name. -/
  | expectedPath (text : String) (kind : TokenKind) (location : Location)
  deriving DecidableEq, Repr

namespace ParseError

/-- The cause in words. -/
def message : ParseError → String
  | unrecognizedInput fragment location => s!"Unexpected '{fragment}' on {location.describe}."
  | unexpectedEnd => "Unexpected end of string."
  | tokenMismatch text _ _ location =>
    "Unexpected \"" ++ Text.trimmed text ++ "\" on " ++ location.describe ++ "."
  | unexpectedToken text _ location | invalidValuePath text location =>
    s!"Unexpected {text} on {location.describe}."
  | emptyInput => "Unexpected value at line 1, column 1."
  | expectedPath text _ _ =>
    "Expected an attribute or value path, got \"" ++ text ++ "\"."

/-- Where the text at fault stands. -/
def location? : ParseError → Option Location
  | unrecognizedInput _ location | tokenMismatch _ _ _ location | unexpectedToken _ _ location
  | invalidValuePath _ location | expectedPath _ _ location => some location
  | unexpectedEnd | emptyInput => none

/-- The text at fault. -/
def text? : ParseError → Option String
  | unrecognizedInput text _ | tokenMismatch text _ _ _ | unexpectedToken text _ _
  | invalidValuePath text _ | expectedPath text _ _ => some text
  | unexpectedEnd | emptyInput => none

/-- The kind of the token at fault. -/
def kind? : ParseError → Option TokenKind
  | tokenMismatch _ kind _ _ | unexpectedToken _ kind _ | expectedPath _ kind _ => some kind
  | _ => none

/-- The kinds of tokens that would have been accepted. -/
def expected? : ParseError → Option (List TokenKind)
  | tokenMismatch _ _ expected _ => some expected
  | _ => none

/-- Whether the text could not even be divided into tokens. -/
def isLexical : ParseError → Bool
  | unrecognizedInput _ _ => true
  | _ => false

end ParseError

end Scim
