import Scim.Text.Blank
import Scim.Text.Case
import Scim.Text.Word
import Scim.Token.Basic

/-!
# `Scim.Token.Recogniser`: what tokens look like

A recogniser takes a token of its kind off the front of a text, if there is one, and gives the
characters of the token and those after it. `Recogniser.table` lists them in order: the first that
succeeds decides, so a literal wins over a name and a logical operator over a comparison operator.

Recognisers are built from a few combinators. Each of them is greedy and never goes back, and
`followedBy` looks at what comes next without taking it:

* `number`, `string`, `boolean` and `null` are literals. The words among them end at a word
  boundary.
* `negation`, `logicalOperator` and `comparisonOperator` are keywords with the blanks they need,
  which belong to the token.
* `name` is an attribute with an optional schema in front, and the schema goes up to the last colon
  that a name can follow (`qualifier`). `subAttribute` is a dot and a name at the end of a path.

Every recogniser only splits the text (`Recogniser.Splits`): the characters of the token followed
by the rest are the text it was given. This passes through every combinator, so each row of the
table has it (`table_splits`).
-/

set_option autoImplicit false

namespace Scim

open Text (isBlank foldCase endsWord)

/-- Splits a text into a token and the rest, if it starts with such a token. -/
abbrev Recogniser := List Char → Option (List Char × List Char)

namespace Recogniser

/-- One character of a class. -/
def one (p : Char → Bool) : Recogniser
  | [] => none
  | c :: cs => if p c then some ([c], cs) else none

/-- As many characters of a class as there are, and at least one. -/
def many1 (p : Char → Bool) : Recogniser := fun cs =>
  if cs.takeWhile p = [] then none else some (cs.takeWhile p, cs.dropWhile p)

/-- The letters of a keyword, in either case. -/
def word : List Char → Recogniser
  | [], cs => some ([], cs)
  | _ :: _, [] => none
  | k :: ks, c :: cs =>
    if foldCase c = k then (word ks cs).map fun (m, rest) => (c :: m, rest) else none

/-- One recogniser after the other. -/
def andThen (r s : Recogniser) : Recogniser := fun cs =>
  match r cs with
  | none => none
  | some (m, rest) => (s rest).map fun (m', rest') => (m ++ m', rest')

/-- The second recogniser where the first one fails. -/
def orElse (r s : Recogniser) : Recogniser := fun cs =>
  (r cs).or (s cs)

/-- What the recogniser finds, or nothing at all. -/
def optional (r : Recogniser) : Recogniser := fun cs =>
  (r cs).or (some ([], cs))

/-- What the recogniser finds, if the given condition holds of the rest. -/
def followedBy (r : Recogniser) (p : List Char → Bool) : Recogniser := fun cs =>
  (r cs).filter fun found => p found.2

/-- The first of some keywords. -/
def words : List String → Recogniser
  | [] => fun _ => none
  | w :: ws => orElse (word w.toList) (words ws)

/-- A run of blanks. -/
def blanks : Recogniser := many1 isBlank

/-- The character `c` itself. -/
def exactly (c : Char) : Recogniser := one (· == c)

/-- A number: digits, and possibly a point and more digits. -/
def number : Recogniser :=
  (many1 Char.isDigit).andThen (optional ((exactly '.').andThen (many1 Char.isDigit)))

/-- A string: everything between a double quote and the next one. -/
def string : Recogniser :=
  (exactly '"').andThen ((optional (many1 (· != '"'))).andThen (exactly '"'))

/-- `true` or `false`, at the end of a word. -/
def boolean : Recogniser :=
  (words ["true", "false"]).followedBy endsWord

/-- `null`, at the end of a word. -/
def null : Recogniser :=
  (words ["null"]).followedBy endsWord

/-- `not` and blanks. -/
def negation : Recogniser :=
  (words ["not"]).andThen blanks

/-- `and` or `or` between blanks. -/
def logicalOperator : Recogniser :=
  blanks.andThen ((words ["and", "or"]).andThen blanks)

/-- A single blank, then either an operator that takes a value and blanks, or `pr` at the end of a
word. -/
def comparisonOperator : Recogniser :=
  (one isBlank).andThen
    (orElse ((words ["eq", "ne", "co", "sw", "ew", "gt", "lt", "ge", "le"]).andThen blanks)
      ((words ["pr"]).followedBy endsWord))

/-- Whether a character may stand in an attribute name. -/
def isNameChar (c : Char) : Bool :=
  let c := foldCase c
  c == '-' || c == '_' || c.isLower || c.isDigit

/-- Whether a character may stand in a schema. -/
def isSchemaChar (c : Char) : Bool :=
  !isBlank c && !(['"', '(', ')', '[', ']'].contains c)

/-- Whether a text starts with a character of a name. -/
def startsName : List Char → Bool
  | [] => false
  | c :: _ => isNameChar c

/-- A schema and the colon after it: as many characters as possible, so that the last one is a
colon that is not the first character of the token, and a name follows. The flag tells whether a
character has been taken already. -/
def qualifier (started : Bool) : Recogniser
  | [] => none
  | c :: cs =>
    if isSchemaChar c then
      -- A later colon is preferred, so the rest is asked first.
      match qualifier true cs with
      | some (m, rest) => some (c :: m, rest)
      | none => if started && c == ':' && startsName cs then some ([c], cs) else none
    else none

/-- A dot and a name. -/
def dottedName : Recogniser :=
  (exactly '.').andThen (many1 isNameChar)

/-- An attribute name, possibly qualified and with one sub-attribute. -/
def name : Recogniser :=
  (optional (qualifier false)).andThen ((many1 isNameChar).andThen (optional dottedName))

/-- A dot and a name at the very end. -/
def subAttribute : Recogniser :=
  dottedName.followedBy List.isEmpty

/-! ### Nothing is lost -/

/-- A recogniser that splits its text in two. -/
def Splits (r : Recogniser) : Prop :=
  ∀ (cs m rest : List Char), r cs = some (m, rest) → m ++ rest = cs

/-- One character is split off. -/
theorem one_splits (p : Char → Bool) : Splits (one p) := by
  intro cs m rest h
  unfold one at h
  split at h
  · contradiction
  · split at h
    · simp only [Option.some.injEq, Prod.mk.injEq] at h
      obtain ⟨rfl, rfl⟩ := h
      rfl
    · contradiction

/-- The longest run of characters is split off, and there is one at least. -/
theorem many1_splits (p : Char → Bool) : Splits (many1 p) := by
  intro cs m rest h
  unfold many1 at h
  split at h
  · contradiction
  · simp only [Option.some.injEq, Prod.mk.injEq] at h
    obtain ⟨rfl, rfl⟩ := h
    exact List.takeWhile_append_dropWhile

/-- A word is split off by recursion on its letters. -/
theorem word_splits (ks : List Char) : Splits (word ks) := by
  intro cs m rest h
  induction ks generalizing cs m with
  | nil =>
    simp only [word, Option.some.injEq, Prod.mk.injEq] at h
    obtain ⟨rfl, rfl⟩ := h
    rfl
  | cons k ks ih =>
    cases cs with
    | nil => simp [word] at h
    | cons c cs =>
      simp only [word] at h
      split at h
      · simp only [Option.map_eq_some_iff, Prod.mk.injEq, Prod.exists] at h
        obtain ⟨m', rest', hm, rfl, rfl⟩ := h
        simp [ih cs m' hm]
      · contradiction

/-- Two recognisers in a row split if both do. -/
theorem andThen_splits {r s : Recogniser} (hr : Splits r) (hs : Splits s) :
    Splits (andThen r s) := by
  intro cs m rest h
  unfold andThen at h
  split at h
  · contradiction
  · next m₁ rest₁ h₁ =>
    simp only [Option.map_eq_some_iff, Prod.mk.injEq, Prod.exists] at h
    obtain ⟨m₂, rest₂, h₂, rfl, rfl⟩ := h
    rw [List.append_assoc, hs _ _ _ h₂, hr _ _ _ h₁]

/-- So does the first of two that succeeds. -/
theorem orElse_splits {r s : Recogniser} (hr : Splits r) (hs : Splits s) :
    Splits (orElse r s) := by
  intro cs m rest h
  unfold orElse at h
  rcases Option.or_eq_some_iff.mp h with h | ⟨-, h⟩
  · exact hr _ _ _ h
  · exact hs _ _ _ h

/-- An optional part splits, with nothing in front if it is missing. -/
theorem optional_splits {r : Recogniser} (hr : Splits r) : Splits (optional r) := by
  intro cs m rest h
  unfold optional at h
  rcases Option.or_eq_some_iff.mp h with h | ⟨-, h⟩
  · exact hr _ _ _ h
  · simp only [Option.some.injEq, Prod.mk.injEq] at h
    obtain ⟨rfl, rfl⟩ := h
    rfl

/-- Looking at what follows takes nothing away from it. -/
theorem followedBy_splits {r : Recogniser} (hr : Splits r) (p : List Char → Bool) :
    Splits (followedBy r p) := by
  intro cs m rest h
  unfold followedBy at h
  exact hr _ _ _ (Option.filter_eq_some_iff.mp h).1

/-- The first word of a list that fits is split off. -/
theorem words_splits (ws : List String) : Splits (words ws) := by
  induction ws with
  | nil => intro cs m rest h; simp [words] at h
  | cons w ws ih => exact orElse_splits (word_splits w.toList) ih

/-- A qualifier is split off behind its last colon, by recursion on the text. -/
theorem qualifier_splits (started : Bool) : Splits (qualifier started) := by
  intro cs m rest h
  induction cs generalizing started m with
  | nil => simp [qualifier] at h
  | cons c cs ih =>
    simp only [qualifier] at h
    split at h
    · split at h
      · next m' rest' h' =>
        simp only [Option.some.injEq, Prod.mk.injEq] at h
        obtain ⟨rfl, rfl⟩ := h
        simp [ih true m' h']
      · split at h
        · simp only [Option.some.injEq, Prod.mk.injEq] at h
          obtain ⟨rfl, rfl⟩ := h
          rfl
        · contradiction
    · contradiction

/-- A bracket or another single character is split off. -/
theorem exactly_splits (c : Char) : Splits (exactly c) := one_splits (· == c)

/-- Digits are split off, with a fraction if a point and more digits follow. -/
theorem number_splits : Splits number :=
  andThen_splits (many1_splits _)
    (optional_splits (andThen_splits (exactly_splits '.') (many1_splits _)))

/-- What is between two quotes is split off together with them. -/
theorem string_splits : Splits string :=
  andThen_splits (exactly_splits '"')
    (andThen_splits (optional_splits (many1_splits _)) (exactly_splits '"'))

/-- A truth value is a word with its end checked. -/
theorem boolean_splits : Splits boolean := followedBy_splits (words_splits _) _

/-- So is `null`. -/
theorem null_splits : Splits null := followedBy_splits (words_splits _) _

/-- A negation is a word with the blanks behind it. -/
theorem negation_splits : Splits negation := andThen_splits (words_splits _) (many1_splits _)

/-- A logical operator is a word with blanks on both sides. -/
theorem logicalOperator_splits : Splits logicalOperator :=
  andThen_splits (many1_splits _) (andThen_splits (words_splits _) (many1_splits _))

/-- A comparison operator is a word with a blank in front, and blanks behind it unless it is `pr`.
-/
theorem comparisonOperator_splits : Splits comparisonOperator :=
  andThen_splits (one_splits _)
    (orElse_splits (andThen_splits (words_splits _) (many1_splits _))
      (followedBy_splits (words_splits _) _))

/-- A dot and the name behind it are split off. -/
theorem dottedName_splits : Splits dottedName :=
  andThen_splits (exactly_splits '.') (many1_splits _)

/-- A name is a qualifier that may be missing, and one or two names. -/
theorem name_splits : Splits name :=
  andThen_splits (optional_splits (qualifier_splits false))
    (andThen_splits (many1_splits _) (optional_splits dottedName_splits))

/-- A sub-attribute is a dotted name that nothing follows. -/
theorem subAttribute_splits : Splits subAttribute := followedBy_splits dottedName_splits _

/-- What tokens of an expression look like, kind by kind, in the order in which they are tried. -/
def table (mode : Mode) : List (TokenKind × Recogniser) :=
  [(.number, number), (.string, string), (.boolean, boolean), (.null, null),
   (.parenOpen, exactly '('), (.parenClose, exactly ')'),
   (.bracketOpen, exactly '['), (.bracketClose, exactly ']'),
   (.negation, negation), (.logicalOperator, logicalOperator),
   (.comparisonOperator, comparisonOperator), (.name, name)] ++
  match mode with
  | .filter => []
  | .path => [(.subAttribute, subAttribute)]

/-- Every row of the table splits, whichever the mode. -/
theorem table_splits (mode : Mode) : ∀ entry ∈ table mode, Splits entry.2 := by
  have common : ∀ entry ∈ table .path, Splits entry.2 := by
    simp only [table, List.cons_append, List.nil_append, List.forall_mem_cons, List.not_mem_nil,
      false_implies, implies_true, and_true]
    exact ⟨number_splits, string_splits, boolean_splits, null_splits, exactly_splits '(',
      exactly_splits ')', exactly_splits '[', exactly_splits ']', negation_splits,
      logicalOperator_splits, comparisonOperator_splits, name_splits, subAttribute_splits⟩
  cases mode with
  | path => exact common
  | filter =>
    intro entry h
    exact common entry (List.mem_append_left _ (by simpa [table] using h))

end Recogniser

end Scim
