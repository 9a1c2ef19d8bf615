import Scim.Text.Blank

/-!
# `Scim.Token.Basic`: tokens

A token is a piece of an expression together with its kind and its place. Blanks are never tokens
of their own; they belong to the operator they surround.

A text is scanned as a filter or as a path (`Mode`). The kinds of tokens are the same in both, but a
sub-attribute stands only at the end of a path.

Readers end because what is left to read gets lighter. `Token.weight` is positive for every token,
also for one without text (`weight_pos`), and it is not less than the number of characters of the
token (`length_charsOf_le`). So a list of tokens gets lighter with each one that is taken, and
scanning its text again makes nothing heavier.
-/

set_option autoImplicit false

namespace Scim

/-- Which kind of expression is read. A path may end in a sub-attribute of its own. -/
inductive Mode where
  /-- A filter. -/
  | filter
  /-- A PATCH path. -/
  | path
  deriving DecidableEq, Repr

/-- The name of a mode. -/
def Mode.name : Mode → String
  | .filter => "filter"
  | .path => "path"

/-- Both modes. -/
def Mode.all : List Mode := [.filter, .path]

/-- The kinds of tokens. -/
inductive TokenKind where
  /-- A number, `42` or `4.5`. -/
  | number
  /-- A string between double quotes. There are no escapes in it. -/
  | string
  /-- `true` or `false`. -/
  | boolean
  /-- `null`. -/
  | null
  /-- An opening parenthesis. -/
  | parenOpen
  /-- A closing parenthesis. -/
  | parenClose
  /-- An opening bracket. -/
  | bracketOpen
  /-- A closing bracket. -/
  | bracketClose
  /-- `not` and the blanks after it. -/
  | negation
  /-- `and` or `or` and the blanks around it. -/
  | logicalOperator
  /-- An operator that takes a value and the blanks around it, or `pr` and the blank before it. -/
  | comparisonOperator
  /-- An attribute name, possibly qualified and with one sub-attribute. -/
  | name
  /-- A dot and a name at the end of a path. -/
  | subAttribute
  deriving DecidableEq, Repr

namespace TokenKind

/-- Every kind of token. -/
def all : List TokenKind :=
  [number, string, boolean, null, parenOpen, parenClose, bracketOpen, bracketClose, negation,
   logicalOperator, comparisonOperator, name, subAttribute]

/-- The kinds that can be the value of a comparison. -/
def literals : List TokenKind := [string, number, boolean, null]

/-- The name of a kind in data. -/
def label : TokenKind → String
  | number => "Number"
  | string => "String"
  | boolean => "Boolean"
  | null => "Null"
  | parenOpen => "ParenOpen"
  | parenClose => "ParenClose"
  | bracketOpen => "BracketOpen"
  | bracketClose => "BracketClose"
  | negation => "Negation"
  | logicalOperator => "LogicalOperator"
  | comparisonOperator => "ComparisonOperator"
  | name => "Name"
  | subAttribute => "SubAttribute"

/-- What a token of this kind is called in a message. -/
def description : TokenKind → String
  | number => "number"
  | string => "string"
  | boolean => "boolean"
  | null => "null"
  | parenOpen => "opening parenthesis"
  | parenClose => "closing parenthesis"
  | bracketOpen => "opening bracket"
  | bracketClose => "closing bracket"
  | negation => "negation"
  | logicalOperator => "logical operator"
  | comparisonOperator => "comparison operator"
  | name => "attribute name"
  | subAttribute => "sub-attribute"

end TokenKind

/-- A token: its kind, its text with the blanks that belong to it, and the byte offset of that text
in the expression. -/
structure Token where
  kind : TokenKind
  text : String
  offset : Nat
  deriving DecidableEq, Repr

namespace Token

/-- The byte offset just after the token. -/
def stop (t : Token) : Nat :=
  t.offset + t.text.utf8ByteSize

/-- The text without the blanks around it. -/
def trimmed (t : Token) : String :=
  Text.trimmed t.text

/-- The characters of consecutive tokens. -/
def charsOf (tokens : List Token) : List Char :=
  tokens.flatMap fun t => t.text.toList

/-- No tokens have no characters. -/
@[simp]
theorem charsOf_nil : charsOf [] = [] := rfl

/-- The characters of the first token come first. -/
@[simp]
theorem charsOf_cons (t : Token) (ts : List Token) :
    charsOf (t :: ts) = t.text.toList ++ charsOf ts :=
  List.flatMap_cons

/-- The characters of tokens in a row are those of the parts in a row. -/
@[simp]
theorem charsOf_append (ts us : List Token) : charsOf (ts ++ us) = charsOf ts ++ charsOf us :=
  List.flatMap_append

/-- How much there is to read in a token: its characters, and never nothing. -/
def weight (t : Token) : Nat :=
  max 1 t.text.length

/-- A token weighs something, even if it has no characters. So consuming one always makes a stream
lighter. -/
theorem weight_pos (t : Token) : 0 < t.weight := by
  unfold weight; omega

end Token

/-- How much there is to read in a list of tokens. -/
def tokensWeight : List Token → Nat
  | [] => 0
  | t :: ts => t.weight + tokensWeight ts

/-- Weights add up. -/
theorem tokensWeight_append (ts us : List Token) :
    tokensWeight (ts ++ us) = tokensWeight ts + tokensWeight us := by
  induction ts with
  | nil => simp [tokensWeight]
  | cons t ts ih => simp only [List.cons_append, tokensWeight, ih]; omega

/-- Tokens weigh at least as much as they have characters. A body that is scanned again is no
heavier than its tokens. -/
theorem length_charsOf_le (ts : List Token) : (Token.charsOf ts).length ≤ tokensWeight ts := by
  induction ts with
  | nil => simp [Token.charsOf, tokensWeight]
  | cons t ts ih =>
    have h : t.text.toList.length ≤ t.weight := by
      rw [String.length_toList]; unfold Token.weight; omega
    simp only [Token.charsOf, List.flatMap_cons, List.length_append, tokensWeight] at ih ⊢
    omega

end Scim
