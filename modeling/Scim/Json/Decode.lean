import Scim.Json.Encode
import Scim.Token.Basic

/-!
# `Scim.Json.Decode`: trees from JSON

Decoding accepts what encoding writes, and a little more:

* entries of an object that mean nothing here are ignored, and an absent entry is like `null` where
  `null` is allowed;
* the fields of a value may also be listed in an array, in their order; a tree is then the list of
  its type and its fields;
* a keyword may also be the name of the only entry of an object, whose value is `null`;
* in a tree below another one the type may also be a number, counting the kinds from zero.

The rules of the constructors are enforced. Nested connectives of the same kind become one.
-/

set_option autoImplicit false

namespace Scim

/-- Why a JSON value cannot be decoded. -/
inductive DecodeError where
  /-- It does not have the required form. -/
  | malformed
  /-- An attribute path has no names. -/
  | emptyPath
  /-- A connective has fewer than two operands. -/
  | tooFewOperands
  deriving DecidableEq, Repr

/-- The cause in words, if it is one of a kind that only these trees have. -/
def DecodeError.message? : DecodeError → Option String
  | .malformed => none
  | .emptyPath => some AttributePath.emptyMessage
  | .tooFewOperands => some "A connective should contain at least two operands."

/-- What decoding gives. -/
abbrev Decoded (α : Type) := Except DecodeError α

namespace Json

variable {α : Type}

/-- The value that must be there. -/
def required : Option α → Decoded α
  | some a => .ok a
  | none => .error .malformed

/-- Decodes a field, if it is there. -/
def decodeField? (decode : Json → Decoded α) (field? : Option Json) : Decoded (Option α) :=
  match field? with
  | some json => (decode json).map some
  | none => .ok none

/-- Decodes a value that may be `null`. -/
def decodeOption (decode : Json → Decoded α) : Json → Decoded (Option α)
  | .null => .ok none
  | json => (decode json).map some

/-- Decodes a string. -/
def decodeString : Json → Decoded String
  | .string text => .ok text
  | _ => .error .malformed

/-- Decodes every element of an array. -/
def decodeList (decode : Json → Decoded α) : Json → Decoded (List α)
  | .array elements => elements.mapM decode
  | _ => .error .malformed

/-- Decodes a count that fits into 64 bits. -/
def decodeCount : Json → Decoded Nat
  | .int n => if 0 ≤ n ∧ n < UInt64.size then .ok n.toNat else .error .malformed
  | _ => .error .malformed

/-- Refuses a list of more than so many fields. -/
def atMost (count : Nat) : Json → Decoded Unit
  | .array elements => if elements.length ≤ count then .ok () else .error .malformed
  | _ => .ok ()

/-- Whether a value can stand for "nothing" after a keyword: `null`, and inside a tree also an
empty object. -/
def isUnit (inTree : Bool) : Json → Bool
  | .null => true
  | .object [] => inTree
  | _ => false

/-- Decodes a keyword: a string, or an object with one entry of that name and nothing in it. -/
def decodeKeyword (inTree : Bool) (all : List α) (keyword : α → String) : Json → Decoded α
  | .string text => required (all.find? fun a => keyword a == text)
  | .object [(text, value)] =>
    if isUnit inTree value then required (all.find? fun a => keyword a == text)
    else .error .malformed
  | _ => .error .malformed

/-- Decodes a place in a text. -/
def decodeLocation (json : Json) : Decoded Location := do
  let line? ← decodeField? decodeCount (json.field? 0 "line")
  let column? ← decodeField? decodeCount (json.field? 1 "column")
  let position? ← decodeField? decodeCount (json.field? 2 "position")
  let location : Location := ⟨← required line?, ← required column?, ← required position?⟩
  json.atMost 3
  return location

/-- Decodes an attribute path. -/
def decodePath (json : Json) : Decoded AttributePath := do
  let schema? ← decodeField? (decodeOption decodeString) (json.field? 0 "schema")
  let names? ← decodeField? (decodeList decodeString) (json.field? 1 "names")
  let names ← required names?
  json.atMost 2
  match AttributePath.ofNames? schema?.join names with
  | some path => return path
  | none => .error .emptyPath

/-- Decodes a literal. -/
def decodeValue : Json → Decoded Value
  | .string text => .ok (.string text)
  | .int n => .ok (.ofInt n)
  | .float x => .ok (.float x)
  | .bool b => .ok (.boolean b)
  | .null => .ok .null
  | .array _ | .object _ => .error .malformed

/-- Decodes a comparison, in a tree or on its own. -/
def decodeComparison (inTree : Bool) (json : Json) : Decoded Comparison := do
  let path? ← decodeField? decodePath (json.field? 0 "attribute_path")
  let operator? ← decodeField? (decodeKeyword inTree Operator.all Operator.keyword)
    (json.field? 1 "operator")
  let value? ← decodeField? (decodeOption decodeValue) (json.field? 2 "value")
  let path ← required path?
  let operator ← required operator?
  json.atMost 3
  return .make path operator value?.join

/-- How to decode any tree smaller than a JSON value. -/
abbrev Smaller (json : Json) := (part : Json) → part.size < json.size → Decoded Node

/-- Decodes a field that holds a tree, if it is there. -/
def decodeTree? (json : Json) (decode : Smaller json) (index : Nat) (name : String) :
    Decoded (Option Node) :=
  match h : json.field? index name with
  | some part => (decode part (size_lt_of_field? h)).map some
  | none => .ok none

/-- Decodes the fields of a negation: the negated tree. -/
def decodeInner (json : Json) (decode : Smaller json) : Decoded Node := do
  let inner? ← decodeTree? json decode 0 "inner"
  let inner ← required inner?
  json.atMost 1
  return inner

/-- Decodes every tree of a list. -/
def decodeTrees (json : Json) (decode : Smaller json) :
    (parts : List Json) → sizeAll parts < json.size → Decoded (List Node)
  | [], _ => .ok []
  | part :: parts, h => do
    have bound : part.size + sizeAll parts < json.size := h
    let node ← decode part (by omega)
    let nodes ← decodeTrees json decode parts (by omega)
    return node :: nodes

/-- Decodes the fields of a connective: its operands, which must be at least two. -/
def decodeOperands (json : Json) (decode : Smaller json) : Decoded (List Node) := do
  let operands? ←
    match h : json.field? 0 "children" with
    | some (.array parts) =>
      (decodeTrees json decode parts (by
        have := size_lt_of_field? h
        simp only [size] at this
        omega)).map some
    | some _ => .error .malformed
    | none => .ok none
  let operands ← required operands?
  json.atMost 1
  if operands.length < 2 then .error .tooFewOperands else return operands

/-- Decodes the fields of a value path, which are taken as they are. -/
def decodeValuePath (json : Json) (decode : Smaller json) : Decoded ValuePath := do
  let path? ← decodeField? decodePath (json.field? 0 "attribute_path")
  let predicate? ← decodeTree? json decode 1 "predicate"
  let subAttribute? ← decodeField? (decodeOption decodeString) (json.field? 2 "sub_attribute")
  let path ← required path?
  let predicate ← required predicate?
  -- An absent entry of an object is `null`, but a list must have all three elements.
  let subAttribute? ←
    match json, subAttribute? with
    | .array _, none => .error .malformed
    | _, subAttribute? => .ok subAttribute?.join
  json.atMost 3
  return ⟨path, predicate, subAttribute?⟩

/-- The kinds of nodes, in the order in which numbers count them. -/
def kinds : List NodeKind :=
  [.attributePath, .comparison, .negation, .conjunction, .disjunction, .valuePath]

/-- Decodes the type of a tree. -/
def decodeKind (nested : Bool) : Json → Decoded NodeKind
  | .string text => required (kinds.find? fun kind => kind.name == text)
  | .int n => if nested ∧ 0 ≤ n then required kinds[n.toNat]? else .error .malformed
  | _ => .error .malformed

/-- Splits a tree into its type and the value that holds its fields. -/
def tagged : (json : Json) → Decoded (Json × { fields : Json // fields.size ≤ json.size })
  | .object entries => do
    let tag ← required (entries.lookup "type")
    return (tag, ⟨.object entries, Nat.le_refl _⟩)
  | .array (tag :: fields) =>
    .ok (tag, ⟨.array fields, by simp only [size, sizeAll]; omega⟩)
  | _ => .error .malformed

/-- Decodes a tree, which is part of another one or not. -/
def decodeNodeIn (nested : Bool) (json : Json) : Decoded Node := do
  let (tag, ⟨fields, _⟩) ← tagged json
  let decode : Smaller fields := fun part _ => decodeNodeIn true part
  match ← decodeKind nested tag with
  | .attributePath => return .attribute (← decodePath fields)
  | .comparison => return .comparison (← decodeComparison true fields)
  | .negation => return .negation (← decodeInner fields decode)
  | .conjunction => return .flattened .and (← decodeOperands fields decode)
  | .disjunction => return .flattened .or (← decodeOperands fields decode)
  | .valuePath => return (← decodeValuePath fields decode).toNode
termination_by json.size

/-- Decodes a tree. -/
def decodeNode (json : Json) : Decoded Node :=
  decodeNodeIn false json

/-- How the parts of a value that is not a tree itself are decoded. Nothing has been read ahead
there, so the types of the parts are names. -/
def decodePart (json : Json) : Smaller json := fun part _ => decodeNode part

/-- Decodes a path expression. -/
def decodePathExpression (json : Json) : Decoded PathExpression := do
  let (tag, ⟨fields, _⟩) ← tagged json
  match tag with
  | .string "attribute" => return .attribute (← decodePath fields)
  | .string "value" =>
    return .value (← decodeValuePath fields fun part _ => decodeNodeIn true part)
  | _ => .error .malformed

end Json

end Scim
