import Scim.Parse.Expression

/-!
# `Scim.Parse.Path`: reading PATCH paths

A path is an attribute, or a value path with an optional sub-attribute behind it. Unlike in a
filter, nothing may follow. `Scim.Proofs.Parse.PathGrammar` says which texts are paths.
-/

set_option autoImplicit false

namespace Scim

/-- Reads a PATCH path, with records. -/
def attemptPath (input : String) : Attempt PathExpression :=
  (Policy.rescanning .path).parser.path input

/-- What a PATCH path addresses. -/
def parsePath (input : String) : Except ParseError PathExpression :=
  (attemptPath input).outcome

end Scim
