import Scim.Proofs.Token.Lexeme

/-!
# `Scim.Proofs.Token.Delimiter`: recognisers do not look past a delimiter

A recogniser is handed the whole rest of the text, yet what it finds depends on the characters up
to the first delimiter alone. `Recogniser.StopsAt r d` states this for a recogniser `r` and a
delimiter `d`: with `d` and anything behind it appended, `r` finds the same token and leaves the
appended text alone. The property passes through every combinator (`one_stopsAt` to
`words_stopsAt`), so each row of the table gets it from the classes of characters it is built from
(`number_stopsAt` to `comparisonOperator_stopsAt`).

Two classes of delimiters matter:

* Parentheses and brackets are delimiters for all rows but three. A single parenthesis or bracket is
  a token itself, a string runs on to its closing quote (`string_eq_some_iff`), and a sub-attribute
  has to be the end of the text (`subAttribute_append_bracket`).
* Blanks are delimiters for literals and names (`endsName_of_blank`).

What both have in common is `EndsName`: they are in none of the classes that literals and names are
made of. `Recogniser.qualifier` is the one recogniser that looks ahead, for another colon, and
`qualifier_stopsAt` says that it does not look past a delimiter either.

`lexeme?_append_bracket` puts the rows together: a text that is cut off at a parenthesis or bracket
starts with the same token as before. This is why the body of a group can be scanned on its own.
-/

set_option autoImplicit false

namespace Scim

open Text

namespace Recogniser

/-- What a recogniser finds, with more text behind it. -/
def extend (more : List Char) (found : List Char × List Char) : List Char × List Char :=
  (found.1, found.2 ++ more)

/-- The recogniser finds the same with the delimiter and any text appended. -/
def StopsAt (r : Recogniser) (d : Char) : Prop :=
  ∀ (cs more : List Char), r (cs ++ d :: more) = (r cs).map (extend (d :: more))

variable {r s : Recogniser} {p : Char → Bool} {d : Char}

/-! ### The combinators and the delimiter -/

/-- A single character is found or not, whatever is behind it. -/
theorem one_stopsAt (hd : p d = false) : StopsAt (one p) d := by
  intro cs more
  cases cs with
  | nil => simp [one, hd]
  | cons c cs =>
      simp only [one, List.cons_append]
      split <;> rfl

/-- A run does not go past a character that is not in its class, so more text behind it is not
taken. -/
theorem takeWhile_append_cons_of_false (hd : p d = false) (cs more : List Char) :
    (cs ++ d :: more).takeWhile p = cs.takeWhile p := by
  induction cs with
  | nil => simp [hd]
  | cons c cs ih => simp only [List.cons_append, List.takeWhile_cons, ih]

/-- And all of that text is left. -/
theorem dropWhile_append_cons_of_false (hd : p d = false) (cs more : List Char) :
    (cs ++ d :: more).dropWhile p = cs.dropWhile p ++ d :: more := by
  induction cs with
  | nil => simp [hd]
  | cons c cs ih =>
      simp only [List.cons_append, List.dropWhile_cons, ih]
      split <;> rfl

/-- A run stops at a character outside of its class. -/
theorem many1_stopsAt (hd : p d = false) : StopsAt (many1 p) d := by
  intro cs more
  simp only [many1, takeWhile_append_cons_of_false hd, dropWhile_append_cons_of_false hd]
  split <;> rfl

/-- A word stops at a character that is none of its letters. -/
theorem word_stopsAt {ks : List Char} (hd : foldCase d ∉ ks) : StopsAt (word ks) d := by
  intro cs more
  induction ks generalizing cs with
  | nil => rfl
  | cons k ks ih =>
      rw [List.mem_cons, not_or] at hd
      cases cs with
      | nil => simp [word, hd.1]
      | cons c cs =>
          simp only [word, List.cons_append]
          split
          · rw [ih hd.2]
            cases word ks cs <;> rfl
          · rfl

/-- The property passes to two recognisers in a row. -/
theorem andThen_stopsAt (hr : StopsAt r d) (hs : StopsAt s d) : StopsAt (andThen r s) d := by
  intro cs more
  unfold andThen
  rw [hr]
  cases r cs with
  | none => rfl
  | some found =>
      obtain ⟨m, rest⟩ := found
      show (s (rest ++ d :: more)).map _ = ((s rest).map _).map _
      rw [hs]
      cases s rest <;> rfl

/-- It passes to a choice, since the first one fails with the delimiter if it does without. -/
theorem orElse_stopsAt (hr : StopsAt r d) (hs : StopsAt s d) : StopsAt (orElse r s) d := by
  intro cs more
  unfold orElse
  rw [hr, hs]
  cases r cs <;> rfl

/-- It passes to an optional part. -/
theorem optional_stopsAt (hr : StopsAt r d) : StopsAt (optional r) d := by
  intro cs more
  unfold optional
  rw [hr]
  cases r cs <;> rfl

/-- A condition on the rest must not be able to see the delimiter either. -/
theorem followedBy_stopsAt {q : List Char → Bool} (hr : StopsAt r d)
    (hq : ∀ rest more, q (rest ++ d :: more) = q rest) : StopsAt (followedBy r q) d := by
  intro cs more
  unfold followedBy
  rw [hr]
  cases r cs with
  | none => rfl
  | some found =>
      simp only [Option.map_some, Option.filter_some, extend, hq]
      split <;> rfl

/-- Words stop at a character that is a letter of none of them. -/
theorem words_stopsAt {ws : List String} (hd : ∀ w ∈ ws, foldCase d ∉ w.toList) :
    StopsAt (words ws) d := by
  induction ws with
  | nil => intro cs more; rfl
  | cons w ws ih =>
      exact orElse_stopsAt (word_stopsAt (hd w List.mem_cons_self))
        (ih fun w' hw' => hd w' (List.mem_cons_of_mem w hw'))

/-- A word ends in front of a delimiter as it ends at the end of the text. -/
theorem endsWord_append (hd : isWord d = false) (rest more : List Char) :
    endsWord (rest ++ d :: more) = endsWord rest := by
  cases rest with
  | nil => simp [endsWord, hd]
  | cons c rest => rfl

/-- What follows a qualifier starts a name or not, with or without a delimiter behind it. -/
theorem startsName_append (hd : isNameChar d = false) (cs more : List Char) :
    startsName (cs ++ d :: more) = startsName cs := by
  cases cs with
  | nil => exact hd
  | cons c cs => rfl

/-- A qualifier is the longest that works, and yet it needs no character past the delimiter: the
delimiter ends the run of characters that a schema may hold. -/
theorem qualifier_stopsAt (started : Bool) (hschema : isSchemaChar d = false)
    (hname : isNameChar d = false) : StopsAt (qualifier started) d := by
  intro cs more
  -- The recursion goes on with the flag set, so the flag is not fixed.
  induction cs generalizing started with
  | nil => simp [qualifier, hschema]
  | cons c cs ih =>
      simp only [qualifier, List.cons_append]
      split
      · rw [ih true, startsName_append hname]
        cases qualifier true cs with
        | some found => rfl
        | none =>
            simp only [Option.map_none]
            split <;> rfl
      · rfl

/-! ### The rows of the table -/

/-- A character that ends every literal and name in front of it. -/
structure EndsName (d : Char) : Prop where
  not_digit : d.isDigit = false
  not_dot : d ≠ '.'
  not_word : isWord d = false
  not_schema : isSchemaChar d = false
  not_name : isNameChar d = false
  not_boolean : ∀ w ∈ ["true", "false"], foldCase d ∉ w.toList
  not_null : ∀ w ∈ ["null"], foldCase d ∉ w.toList

/-- A single character stops at every other one. -/
theorem exactly_stopsAt {c : Char} (hd : d ≠ c) : StopsAt (exactly c) d :=
  one_stopsAt (by simpa using hd)

namespace EndsName

/-- Digits and a point stop at what ends a name. -/
theorem number_stopsAt (hd : EndsName d) : StopsAt number d :=
  andThen_stopsAt (many1_stopsAt hd.not_digit)
    (optional_stopsAt (andThen_stopsAt (exactly_stopsAt hd.not_dot) (many1_stopsAt hd.not_digit)))

/-- The letters of a truth value do, and its end is checked for a word character only. -/
theorem boolean_stopsAt (hd : EndsName d) : StopsAt boolean d :=
  followedBy_stopsAt (words_stopsAt hd.not_boolean) (endsWord_append hd.not_word)

/-- So do those of `null`. -/
theorem null_stopsAt (hd : EndsName d) : StopsAt null d :=
  followedBy_stopsAt (words_stopsAt hd.not_null) (endsWord_append hd.not_word)

/-- So does a name behind a dot. -/
theorem dottedName_stopsAt (hd : EndsName d) : StopsAt dottedName d :=
  andThen_stopsAt (exactly_stopsAt hd.not_dot) (many1_stopsAt hd.not_name)

/-- So does a name with a schema. -/
theorem name_stopsAt (hd : EndsName d) : StopsAt name d :=
  andThen_stopsAt (optional_stopsAt (qualifier_stopsAt false hd.not_schema hd.not_name))
    (andThen_stopsAt (many1_stopsAt hd.not_name) (optional_stopsAt hd.dottedName_stopsAt))

end EndsName

/-- The parentheses and brackets. -/
def brackets : List Char := ['(', ')', '[', ']']

/-- A parenthesis or bracket ends every literal and name. -/
theorem endsName_of_bracket (hd : d ∈ brackets) : EndsName d := by
  simp only [brackets, List.mem_cons, List.not_mem_nil, or_false] at hd
  rcases hd with rfl | rfl | rfl | rfl <;> constructor <;> decide +kernel

/-- It is no blank. -/
theorem not_blank_of_bracket (hd : d ∈ brackets) : isBlank d = false := by
  have hall : brackets.all (fun d => !isBlank d) = true := by decide
  simpa using List.all_eq_true.mp hall d hd

/-- No keyword holds a parenthesis or bracket. -/
theorem words_stopsAt_bracket (hd : d ∈ brackets) (ws : List String)
    (hws : (ws.all fun w => brackets.all fun c => !w.toList.contains (foldCase c)) = true) :
    StopsAt (words ws) d := by
  refine words_stopsAt fun w hw => ?_
  have hw := List.all_eq_true.mp (List.all_eq_true.mp hws w hw) d hd
  simpa using hw

/-- A negation stops at it, in the word or in the blanks. -/
theorem negation_stopsAt (hd : d ∈ brackets) : StopsAt negation d :=
  andThen_stopsAt (words_stopsAt_bracket hd _ (by decide))
    (many1_stopsAt (not_blank_of_bracket hd))

/-- So does a logical operator, which starts with blanks as well. -/
theorem logicalOperator_stopsAt (hd : d ∈ brackets) : StopsAt logicalOperator d :=
  andThen_stopsAt (many1_stopsAt (not_blank_of_bracket hd))
    (andThen_stopsAt (words_stopsAt_bracket hd _ (by decide))
      (many1_stopsAt (not_blank_of_bracket hd)))

/-- So does a comparison operator of either form. -/
theorem comparisonOperator_stopsAt (hd : d ∈ brackets) : StopsAt comparisonOperator d :=
  andThen_stopsAt (one_stopsAt (not_blank_of_bracket hd))
    (orElse_stopsAt
      (andThen_stopsAt (words_stopsAt_bracket hd _ (by decide))
        (many1_stopsAt (not_blank_of_bracket hd)))
      (followedBy_stopsAt (words_stopsAt_bracket hd _ (by decide))
        (endsWord_append (endsName_of_bracket hd).not_word)))

/-- Every blank ends a literal or a name. The blanks are few, so each of them is looked up in the
other classes. -/
theorem endsName_of_blank (hd : isBlank d = true) : EndsName d := by
  -- A blank is in one of the ranges, hence on the list of all their members.
  obtain ⟨range, hmem, hfirst, hlast⟩ := (CharRanges.covers_iff ascendFrom_blankRanges _).mp hd
  have hlisted : d.toNat ∈ blankRanges.flatMap fun r => List.range' r.1 (r.2 - r.1 + 1) := by
    rw [List.mem_flatMap]
    exact ⟨range, hmem, List.mem_range'_1.mpr ⟨hfirst, by omega⟩⟩
  have hall : ∀ n ∈ blankRanges.flatMap fun r => List.range' r.1 (r.2 - r.1 + 1),
      (Char.ofNat n).isDigit = false ∧ Char.ofNat n ≠ '.' ∧ isWord (Char.ofNat n) = false ∧
      isSchemaChar (Char.ofNat n) = false ∧ isNameChar (Char.ofNat n) = false ∧
      (∀ w ∈ ["true", "false"], foldCase (Char.ofNat n) ∉ w.toList) ∧
      ∀ w ∈ ["null"], foldCase (Char.ofNat n) ∉ w.toList := by
    decide +kernel
  have h := hall d.toNat hlisted
  rw [Char.ofNat_toNat] at h
  obtain ⟨hdigit, hdot, hword, hschema, hname, hboolean, hnull⟩ := h
  exact ⟨hdigit, hdot, hword, hschema, hname, hboolean, hnull⟩

/-! ### Strings -/

/-- More text behind a string changes nothing, whichever it is. -/
theorem string_append {cs m rest : List Char} (h : string cs = some (m, rest))
    (more : List Char) : string (cs ++ more) = some (m, rest ++ more) := by
  obtain ⟨body, hbody, hm, rfl⟩ := string_eq_some_iff.mp h
  exact string_eq_some_iff.mpr ⟨body, hbody, hm, by rw [List.append_assoc]⟩

end Recogniser

/-! ### The first token of a text -/

open Recogniser

/-- A first token, with more text behind it. -/
def extendLexeme (more : List Char) (found : TokenKind × List Char × List Char) :
    TokenKind × List Char × List Char :=
  (found.1, found.2.1, found.2.2 ++ more)

/-- Nothing can follow a sub-attribute. -/
theorem subAttribute_append_bracket {d : Char} (hd : d ∈ brackets) (cs more : List Char) :
    subAttribute (cs ++ d :: more) = none := by
  unfold subAttribute followedBy
  rw [(endsName_of_bracket hd).dottedName_stopsAt]
  cases dottedName cs <;> simp [extend]

/-- Every recogniser but the one of a sub-attribute finds the same in a text that is cut off at a
parenthesis or bracket. A string must be closed before the cut. -/
theorem recogniserOf_append_bracket {kind : TokenKind} (hkind : kind ≠ .subAttribute) {d : Char}
    (hd : d ∈ brackets) {cs : List Char} (hne : cs ≠ [])
    (hclosed : cs.head? = some '"' → string cs ≠ none) (more : List Char) :
    recogniserOf kind (cs ++ d :: more) = (recogniserOf kind cs).map (extend (d :: more)) := by
  have hname := endsName_of_bracket hd
  obtain ⟨c, cs, rfl⟩ := List.exists_cons_of_ne_nil hne
  -- A row for one character looks at the first one only, and that is in front of the cut.
  have hexactly : ∀ c', exactly c' (c :: cs ++ d :: more)
      = (exactly c' (c :: cs)).map (extend (d :: more)) := by
    intro c'
    simp only [exactly, one, List.cons_append]
    split <;> rfl
  cases kind with
  | number => exact hname.number_stopsAt _ _
  | string =>
      -- A string may run past the cut, unless it is closed before.
      show string _ = (string _).map _
      cases hs : string (c :: cs) with
      | some found => exact string_append hs _
      | none =>
          refine string_cons_eq_none ?_ _
          rintro rfl
          exact hclosed rfl hs
  | boolean => exact hname.boolean_stopsAt _ _
  | null => exact hname.null_stopsAt _ _
  | parenOpen => exact hexactly '('
  | parenClose => exact hexactly ')'
  | bracketOpen => exact hexactly '['
  | bracketClose => exact hexactly ']'
  | negation => exact negation_stopsAt hd _ _
  | logicalOperator => exact logicalOperator_stopsAt hd _ _
  | comparisonOperator => exact comparisonOperator_stopsAt hd _ _
  | name => exact hname.name_stopsAt _ _
  | subAttribute => contradiction

/-- A text that is cut off at a parenthesis or bracket starts with the same token as before. A
string that is not closed before the cut is the exception. What is behind the cut keeps a
sub-attribute from being found, so the token is one of a filter. -/
theorem lexeme?_append_bracket (mode : Mode) {d : Char} (hd : d ∈ brackets) {cs : List Char}
    (hne : cs ≠ []) (hclosed : cs.head? = some '"' → string cs ≠ none) (more : List Char) :
    lexeme? mode (cs ++ d :: more) = (lexeme? .filter cs).map (extendLexeme (d :: more)) := by
  have hkinds : ∀ ks : List TokenKind, .subAttribute ∉ ks →
      ks.findSome? (lexemeOf? (cs ++ d :: more))
        = (ks.findSome? (lexemeOf? cs)).map (extendLexeme (d :: more)) := by
    intro ks hks
    induction ks with
    | nil => rfl
    | cons k ks ih =>
        rw [List.mem_cons, not_or] at hks
        rw [List.findSome?_cons, List.findSome?_cons, ih hks.2]
        unfold lexemeOf?
        rw [recogniserOf_append_bracket (Ne.symm hks.1) hd hne hclosed]
        cases recogniserOf k cs <;> rfl
  cases mode with
  | filter =>
      rw [lexeme?_eq_findSome?, lexeme?_eq_findSome?]
      exact hkinds _ (by decide)
  | path =>
      -- One more row, and it finds nothing in front of a bracket.
      rw [lexeme?_eq_findSome?, lexeme?_eq_findSome?,
        show kinds .path = kinds .filter ++ [.subAttribute] from rfl, List.findSome?_append,
        hkinds _ (by decide)]
      have hsub : lexemeOf? (cs ++ d :: more) .subAttribute = none := by
        show (subAttribute _).map _ = none
        rw [subAttribute_append_bracket hd]
        rfl
      simp [hsub]

end Scim
