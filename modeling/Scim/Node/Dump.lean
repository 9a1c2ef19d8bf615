import Scim.Dump
import Scim.Node.Basic

/-!
# `Scim.Node.Dump`: dumps of trees
-/

set_option autoImplicit false

namespace Scim

/-- Floats in a dump have a fraction, are positional from `1e-4` up to `1e16`, and a sign only on a
negative exponent. -/
def Dump.floatLayout : Number.Layout where
  leastPositional := some (-4)
  greatestPositional := some 15
  exactIntegers := false
  plusSign := false
  tie := .up

/-- A keyword with its first letter capital. -/
def Dump.capitalised (keyword : String) : Dump :=
  match keyword.toList with
  | [] => .atom keyword
  | c :: cs => .atom (String.ofList (c.toUpper :: cs))

/-- An attribute path as a dump. -/
def AttributePath.toDump (p : AttributePath) : Dump :=
  .record "AttributePath"
    [("schema", .optional (p.schema.map .text)), ("names", .list (p.names.map .text))]

/-- A literal as a dump. -/
def Value.toDump : Value → Dump
  | .string text => .call "String" (.text text)
  | .integer n => .call "Integer" (.atom (Number.integerText n.toInt))
  | .float x => .call "Float" (.atom (Dump.floatLayout.write x))
  | .boolean b => .call "Boolean" (.atom (if b then "true" else "false"))
  | .null => .atom "Null"

/-- A comparison as a dump. -/
def Comparison.toDump (c : Comparison) : Dump :=
  .record "Comparison"
    [("attribute_path", c.path.toDump), ("operator", .capitalised c.operator.keyword),
     ("value", .optional (c.value?.map Value.toDump))]

/-- A value path as a dump, when its predicate is dumped already. -/
def ValuePath.dumpOf (path : AttributePath) (predicate : Dump) (subAttribute? : Option String) :
    Dump :=
  .record "ValuePath"
    [("attribute_path", path.toDump), ("predicate", predicate),
     ("sub_attribute", .optional (subAttribute?.map .text))]

namespace Node

/-- The name of a connective in a dump. -/
def connectiveName : LogicalOperator → String
  | .and => "Conjunction"
  | .or => "Disjunction"

mutual
/-- A tree as a dump. -/
def toDump : Node → Dump
  | .attribute path => .call "AttributePath" path.toDump
  | .comparison c => .call "Comparison" c.toDump
  | .negation inner => .call "Negation" (.record "Negation" [("inner", toDump inner)])
  | .connective operator operands =>
    .call (connectiveName operator)
      (.record "Connective" [("children", .list (toDumpAll operands))])
  | .valuePath path predicate subAttribute? =>
    .call "ValuePath" (ValuePath.dumpOf path (toDump predicate) subAttribute?)

/-- Trees as dumps, one by one. -/
def toDumpAll : List Node → List Dump
  | [] => []
  | node :: nodes => toDump node :: toDumpAll nodes
end

end Node

/-- A path expression as a dump. -/
def PathExpression.toDump : PathExpression → Dump
  | .attribute path => .call "Attribute" path.toDump
  | .value v => .call "Value" (ValuePath.dumpOf v.path v.predicate.toDump v.subAttribute?)

end Scim
