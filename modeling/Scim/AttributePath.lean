import Scim.Text.Case

/-!
# `Scim.AttributePath`: which attribute is meant

An attribute path is one or more attribute names, from the outermost to the innermost, and possibly
the schema they belong to: `urn:ietf:params:scim:schemas:core:2.0:User:name.givenName` has the
schema up to `User` and the names `name` and `givenName`. There is always a first name, so a path
without names cannot be built.

* `ofName` reads a path: the last colon ends the schema, and dots divide the names. `render` writes
  it again.
* `prefixedBy` puts a path under another one, whose schema it takes, and `relativeTo` takes it out
  again, without a schema.
* `refersTo` compares paths up to the case of ASCII letters.
-/

set_option autoImplicit false

namespace Scim

/-- A reference to an attribute. The first name is a field of its own, so there is always one. -/
structure AttributePath where
  /-- The schema that qualifies the names, if any. -/
  schema : Option String
  /-- The outermost name. -/
  first : String
  /-- The names below the outermost one. -/
  inner : List String
  deriving DecidableEq, Repr

namespace AttributePath

/-- The message for a path without names. -/
def emptyMessage : String :=
  "Attribute path should contain at least one attribute name."

/-- The names from the outermost to the innermost. -/
def names (p : AttributePath) : List String :=
  p.first :: p.inner

/-- The path with the given names, if there is at least one. -/
def ofNames? (schema : Option String) : List String → Option AttributePath
  | [] => none
  | first :: inner => some ⟨schema, first, inner⟩

/-- The path without a schema and with a single name. -/
def ofSingle (name : String) : AttributePath := ⟨none, name, []⟩

/-- Splits a list of characters at its last colon, which is in neither part. -/
def splitAtLastColon : List Char → Option (List Char × List Char)
  | [] => none
  | c :: cs =>
    match splitAtLastColon cs with
    | some (before, after) => some (c :: before, after)
    | none => if c = ':' then some ([], cs) else none

/-- Splits a list of characters at every dot: the part up to the first dot, and those after it. -/
def splitAtDots : List Char → List Char × List (List Char)
  | [] => ([], [])
  | c :: cs =>
    let (first, inner) := splitAtDots cs
    if c = '.' then ([], first :: inner) else (c :: first, inner)

/-- The path that a name in an expression stands for: what is before the last colon is the schema,
and dots divide the names. -/
def ofName (text : String) : AttributePath :=
  let (schema, dotted) :=
    match splitAtLastColon text.toList with
    | some (schema, dotted) => (some (String.ofList schema), dotted)
    | none => (none, text.toList)
  let (first, inner) := splitAtDots dotted
  ⟨schema, String.ofList first, inner.map String.ofList⟩

/-- The number of names. -/
def length (p : AttributePath) : Nat := p.names.length

/-- The innermost name. -/
def last (p : AttributePath) : String := p.inner.getLast?.getD p.first

/-- The name at an index, the outermost being at zero. -/
def get? (p : AttributePath) (index : Nat) : Option String := p.names[index]?

/-- The names with dots between them. -/
def dotted (p : AttributePath) : String :=
  p.inner.foldl (fun text name => text ++ "." ++ name) p.first

/-- The path in an expression. -/
def render (p : AttributePath) : String :=
  match p.schema with
  | some schema => schema ++ ":" ++ p.dotted
  | none => p.dotted

/-- The path below another one, whose schema it takes. -/
def prefixedBy (p collection : AttributePath) : AttributePath :=
  ⟨collection.schema, collection.first, collection.inner ++ p.names⟩

/-- The path with one more name below. -/
def join (p : AttributePath) (name : String) : AttributePath :=
  ⟨p.schema, p.first, p.inner ++ [name]⟩

/-- The names below another path of the same schema, if this path is strictly below it. -/
def relativeTo (p collection : AttributePath) : Option AttributePath :=
  if p.schema = collection.schema ∧ collection.names <+: p.names then
    ofNames? none (p.names.drop collection.length)
  else none

/-- The path without its innermost name, unless that is the only one. -/
def parent (p : AttributePath) : AttributePath :=
  ⟨p.schema, p.first, p.inner.dropLast⟩

/-- Whether two lists of names are equal up to the case of ASCII letters. -/
def sameNames : List String → List String → Bool
  | [], [] => true
  | a :: as, b :: bs => Text.sameIgnoringCase a b && sameNames as bs
  | _, _ => false

/-- Whether two paths mean the same attribute: schemas and names do not depend on the case of ASCII
letters. -/
def refersTo (p q : AttributePath) : Bool :=
  (match p.schema, q.schema with
    | some a, some b => Text.sameIgnoringCase a b
    | none, none => true
    | _, _ => false) &&
  sameNames p.names q.names

end AttributePath

end Scim
