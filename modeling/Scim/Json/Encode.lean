import Scim.Json.Basic
import Scim.Location
import Scim.Node.Basic

/-!
# `Scim.Json.Encode`: trees as JSON

A tree is an object whose entry `type` names its kind, and the other entries are the parts of the
node in their order. A literal is written as the JSON value it is; a float that is not finite has
none and is written as `null`. So is a part that is absent: the schema of a path, the literal of a
comparison, the sub-attribute of a value path.

`Scim.Proofs.Json.RoundTrip` shows that the tree is decoded again from this.
-/

set_option autoImplicit false

namespace Scim

/-- The name of a kind of node. -/
def NodeKind.name : NodeKind → String
  | .attributePath => "attribute_path"
  | .comparison => "comparison"
  | .negation => "negation"
  | .conjunction => "conjunction"
  | .disjunction => "disjunction"
  | .valuePath => "value_path"

/-- A place as JSON. -/
def Location.toJson (l : Location) : Json :=
  .object [("line", .int l.line), ("column", .int l.column), ("position", .int l.position)]

/-- The fields of an attribute path. -/
def AttributePath.fields (p : AttributePath) : List (String × Json) :=
  [("schema", .ofOption p.schema), ("names", .array (p.names.map .string))]

/-- An attribute path as JSON. -/
def AttributePath.toJson (p : AttributePath) : Json :=
  .object p.fields

/-- A literal as JSON. -/
def Value.toJson : Value → Json
  | .string text => .string text
  | .integer n => .int n.toInt
  | .float x => if x.isFinite then .float x else .null
  | .boolean b => .bool b
  | .null => .null

/-- The fields of a comparison. -/
def Comparison.fields (c : Comparison) : List (String × Json) :=
  [("attribute_path", c.path.toJson), ("operator", .string c.operator.keyword),
   ("value", (c.value?.map Value.toJson).getD .null)]

/-- The fields of a value path, when its predicate is encoded already. -/
def ValuePath.fieldsOf (path : AttributePath) (predicate : Json) (subAttribute? : Option String) :
    List (String × Json) :=
  [("attribute_path", path.toJson), ("predicate", predicate),
   ("sub_attribute", .ofOption subAttribute?)]

namespace Node

/-- The entry that names a kind. -/
def typeEntry (name : String) : String × Json :=
  ("type", .string name)

mutual
/-- A tree as JSON. -/
def toJson : Node → Json
  | .attribute path => .object (typeEntry NodeKind.attributePath.name :: path.fields)
  | .comparison c => .object (typeEntry NodeKind.comparison.name :: c.fields)
  | .negation inner => .object [typeEntry NodeKind.negation.name, ("inner", toJson inner)]
  | .connective operator operands =>
    .object [typeEntry (kind (.connective operator operands)).name,
      ("children", .array (toJsonAll operands))]
  | .valuePath path predicate subAttribute? =>
    .object (typeEntry NodeKind.valuePath.name ::
      ValuePath.fieldsOf path (toJson predicate) subAttribute?)

/-- Trees as JSON, one by one. -/
def toJsonAll : List Node → List Json
  | [] => []
  | node :: nodes => toJson node :: toJsonAll nodes
end

/-- The operands of a connective as JSON, without saying which operator joins them. -/
def operandsToJson (operands : List Node) : Json :=
  .object [("children", .array (operands.map toJson))]

end Node

/-- A path expression as JSON. -/
def PathExpression.toJson : PathExpression → Json
  | .attribute path => .object (Node.typeEntry "attribute" :: path.fields)
  | .value v =>
    .object (Node.typeEntry "value" ::
      ValuePath.fieldsOf v.path v.predicate.toJson v.subAttribute?)

end Scim
