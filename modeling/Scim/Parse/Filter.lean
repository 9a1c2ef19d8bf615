import Scim.Parse.Expression

/-!
# `Scim.Parse.Filter`: reading filters

A filter is read as an expression of all the tokens. It may be empty, and tokens behind the
expression are ignored; both are so by the grammar (`Scim.Parse.Reading`).
`Scim.Proofs.Parse.Grammar` says which texts are filters, and of which tree.
-/

set_option autoImplicit false

namespace Scim

/-- Reads a filter, with records. -/
def attemptFilter (input : String) : Attempt (Option Node) :=
  (Policy.rescanning .filter).parser.filter input

/-- The tree of a filter, or none if the filter is empty: one that starts with an empty group or
negation, such as `()`. -/
def parseFilter (input : String) : Except ParseError (Option Node) :=
  (attemptFilter input).outcome

end Scim
