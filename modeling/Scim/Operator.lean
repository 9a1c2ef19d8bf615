import Scim.Text.Blank
import Scim.Text.Case

/-!
# `Scim.Operator`: the keywords of an expression

Comparison operators stand between an attribute and a value, except for `pr`, which takes no value.
Logical operators join two expressions. Both are read from their keyword in any case, blanks around
it allowed (`readKeyword`).
-/

set_option autoImplicit false

namespace Scim

/-- A text that is no operator's keyword, without the blanks around it. -/
structure UnknownOperator where
  text : String
  deriving DecidableEq, Repr

/-- The message for a text that is no operator's keyword. -/
def UnknownOperator.message (e : UnknownOperator) : String :=
  s!"Unknown operator '{e.text}'."

/-- Finds the one of these operators whose keyword a text is, in any case and with blanks around
it. -/
def readKeyword {α : Type} (all : List α) (keyword : α → String) (text : String) :
    Except UnknownOperator α :=
  let word := Text.trimmed text
  match all.find? fun a => Text.sameIgnoringCase (keyword a) word with
  | some a => .ok a
  | none => .error ⟨word⟩

/-- What is read is the first of the operators whose keyword the text has. -/
theorem readKeyword_eq_ok_iff {α : Type} {all : List α} {keyword : α → String} {text : String}
    {a : α} : readKeyword all keyword text = .ok a ↔
      all.find? (fun a => Text.sameIgnoringCase (keyword a) (Text.trimmed text)) = some a := by
  unfold readKeyword
  dsimp only
  split
  · next hfind => rw [hfind, Except.ok.injEq, Option.some.injEq]
  · next hfind => simp [hfind]

/-- How an attribute is compared. -/
inductive Operator where
  /-- Equal. -/
  | eq
  /-- Not equal. -/
  | ne
  /-- Contains. -/
  | co
  /-- Starts with. -/
  | sw
  /-- Ends with. -/
  | ew
  /-- Greater than. -/
  | gt
  /-- Less than. -/
  | lt
  /-- Greater than or equal. -/
  | ge
  /-- Less than or equal. -/
  | le
  /-- Present: the attribute has a value, whichever it is. -/
  | pr
  deriving DecidableEq, Repr

namespace Operator

/-- Every operator. -/
def all : List Operator := [eq, ne, co, sw, ew, gt, lt, ge, le, pr]

/-- The keyword of an operator. -/
def keyword : Operator → String
  | eq => "eq"
  | ne => "ne"
  | co => "co"
  | sw => "sw"
  | ew => "ew"
  | gt => "gt"
  | lt => "lt"
  | ge => "ge"
  | le => "le"
  | pr => "pr"

/-- Whether the operator takes no value. -/
def isUnary : Operator → Bool
  | pr => true
  | _ => false

/-- Whether the operator asks how two values are ordered. -/
def isOrdering : Operator → Bool
  | gt | lt | ge | le => true
  | _ => false

/-- Reads an operator from its keyword. -/
def read (text : String) : Except UnknownOperator Operator :=
  readKeyword all keyword text

end Operator

/-- How expressions are joined. -/
inductive LogicalOperator where
  /-- All operands hold. -/
  | and
  /-- Some operand holds. -/
  | or
  deriving DecidableEq, Repr

namespace LogicalOperator

/-- Both logical operators. -/
def all : List LogicalOperator := [and, or]

/-- The keyword of a logical operator. -/
def keyword : LogicalOperator → String
  | and => "and"
  | or => "or"

/-- Reads a logical operator from its keyword. -/
def read (text : String) : Except UnknownOperator LogicalOperator :=
  readKeyword all keyword text

end LogicalOperator

end Scim
