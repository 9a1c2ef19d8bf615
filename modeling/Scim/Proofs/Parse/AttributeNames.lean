import Scim.Proofs.Location
import Scim.Proofs.Parse.RoundTrip
import Scim.Proofs.Token.Names
import Scim.Proofs.Token.SubAttribute

/-!
# `Scim.Proofs.Parse.AttributeNames`: names that start like a keyword

An attribute name is a letter followed by letters, digits, hyphens and underscores. Such names may
start with a keyword: `nullable`, `trueValue` and `notes` are names and have to be read as such, and
the keywords for literals are therefore taken only at the end of a word.

A hyphen ends a word, however, although it may stand in a name. So `true-color` is the literal
`true` and a name `-color` behind it. `IsHyphenated` is for names of this form.

* `IsAttributeName.literal_or_hyphenated`: a literal in front of a name is all of the name or ends
  at a hyphen. No other character of a name ends a word (`IsAttributeName.eq_hyphen`).
* `IsAttributeName.isName`: all other names are scanned as names.
* `IsHyphenated.yields`: a hyphenated name is scanned to a literal and a name.
* `parseFilter_eq_unexpectedToken`: a filter that starts with a literal is refused there.

`parseFilter_attributeName` puts them together and shows that there are no other exceptions.
-/

set_option autoImplicit false

namespace Scim

open Text Recogniser Attempt

/-- An attribute name: a letter, then letters, digits, hyphens and underscores. -/
def IsAttributeName (a : String) : Prop :=
  ∃ c cs, a.toList = c :: cs ∧ c.isAlpha = true ∧
    ∀ d ∈ cs, d.isAlphanum = true ∨ d = '-' ∨ d = '_'

/-- Whether a text is an attribute name can be computed. -/
instance (a : String) : Decidable (IsAttributeName a) :=
  decidable_of_iff (a.toList.head?.any Char.isAlpha = true ∧
      a.toList.tail.all (fun d => d.isAlphanum || d == '-' || d == '_') = true) (by
    unfold IsAttributeName
    cases a.toList <;> simp [or_assoc])

/-- The literals that are words. -/
def literalWords : List String := ["true", "false", "null"]

/-- A text is a word for a literal if its lower case is. -/
theorem sameIgnoringCase_literalWord_iff {word w : String} (hw : w ∈ literalWords) :
    sameIgnoringCase word w = true ↔ word.toList.map Char.toLower = w.toList := by
  have hlower : ∀ w ∈ literalWords, w.toList.map Char.toLower = w.toList := by decide
  simp [sameIgnoringCase, hlower w hw]

/-- A name that consists of a word for a literal, in any case, a hyphen, and the rest. -/
def IsHyphenated (word a : String) : Prop :=
  (∃ w ∈ literalWords, sameIgnoringCase word w = true) ∧ ∃ rest, a = word ++ "-" ++ rest

/-! ### Names on their own -/

/-- The row of a name takes all the characters of a name. -/
theorem name_of_nameChars {cs : List Char} (hne : cs ≠ [])
    (hcs : ∀ c ∈ cs, isNameChar c = true) : name cs = some (cs, []) := by
  have hcolon : ':' ∉ cs := fun hmem => absurd (hcs ':' hmem) (by decide)
  have hall : cs.takeWhile isNameChar = cs := List.takeWhile_eq_self_iff.mpr hcs
  have hrest : cs.dropWhile isNameChar = [] := List.dropWhile_eq_nil_iff.mpr hcs
  have hqualifier : optional (qualifier false) cs = some ([], cs) :=
    optional_eq_some_iff.mpr (.inr ⟨qualifier_eq_none hcolon false, rfl⟩)
  have hmany : many1 isNameChar cs = some (cs, []) :=
    many1_eq_some_iff.mpr ⟨hne, hall.symm, hrest.symm⟩
  refine andThen_eq_some_iff.mpr ⟨[], cs, cs, hqualifier, ?_, rfl⟩
  exact andThen_eq_some_iff.mpr ⟨cs, [], [], hmany, rfl, by simp⟩

/-- Characters of a name are a name, unless they start with a digit or a literal. -/
theorem isName_of_nameChars {c : Char} {cs : List Char}
    (hcs : ∀ d ∈ c :: cs, isNameChar d = true) (hdigit : c.isDigit = false)
    (hboolean : boolean (c :: cs) = none) (hnull : null (c :: cs) = none) : IsName (c :: cs) := by
  have hc := hcs c List.mem_cons_self
  have hother : ∀ c' : Char, isNameChar c' = false → c ≠ c' := by
    rintro c' hc' rfl
    rw [hc] at hc'
    contradiction
  have hblank : ∀ d ∈ c :: cs, isBlank d = false := by
    intro d hd
    rw [← Bool.not_eq_true]
    intro hblank
    have hnot := (endsName_of_blank hblank).not_name
    rw [hcs d hd] at hnot
    contradiction
  have hnegation : negation (c :: cs) = none := by
    rw [← Option.not_isSome_iff_eq_none, Option.isSome_iff_exists, negation_eq_some_iff]
    rintro ⟨m, d, more, heq, -, hd⟩
    rw [hblank d (by simp [heq])] at hd
    contradiction
  -- The row of names finds all of it, and none of the rows before it finds anything.
  refine lexeme?_eq_some_iff.mpr ⟨by decide, name_of_nameChars (List.cons_ne_nil c cs) hcs, ?_⟩
  intro k hk
  cases k with
  | number => exact number_cons_eq_none hdigit cs
  | string => exact string_cons_eq_none (hother '"' (by decide)) cs
  | boolean => exact hboolean
  | null => exact hnull
  | parenOpen => exact exactly_cons_eq_none (hother '(' (by decide)) cs
  | parenClose => exact exactly_cons_eq_none (hother ')' (by decide)) cs
  | bracketOpen => exact exactly_cons_eq_none (hother '[' (by decide)) cs
  | bracketClose => exact exactly_cons_eq_none (hother ']' (by decide)) cs
  | negation => exact hnegation
  | logicalOperator => exact logicalOperator_cons_eq_none (hblank c List.mem_cons_self) cs
  | comparisonOperator => exact comparisonOperator_cons_eq_none (hblank c List.mem_cons_self) cs
  | name => exact absurd hk (by decide)
  | subAttribute => exact absurd hk (by decide)

/-- The rows of the literals that are words. -/
theorem exists_literalWord {k : TokenKind} (hk : k ∈ [TokenKind.boolean, .null])
    {cs m rest : List Char} (h : recogniserOf k cs = some (m, rest)) :
    cs = m ++ rest ∧ (∃ w ∈ literalWords, m.map foldCase = w.toList) ∧ endsWord rest = true := by
  have hrow : ∃ ws ⊆ literalWords, recogniserOf k = (words ws).followedBy endsWord := by
    simp only [List.mem_cons, List.not_mem_nil, or_false] at hk
    rcases hk with rfl | rfl
    · exact ⟨["true", "false"], by decide, rfl⟩
    · exact ⟨["null"], by decide, rfl⟩
  obtain ⟨ws, hws, hrow⟩ := hrow
  rw [hrow] at h
  obtain ⟨hwords, hends⟩ := followedBy_eq_some_iff.mp h
  obtain ⟨w, hw, hword⟩ := exists_word_of_words hwords
  obtain ⟨hsplit, hm⟩ := word_eq_some_iff.mp hword
  exact ⟨hsplit, ⟨w, hws hw, hm⟩, hends⟩

/-- At the end of a word, a word for a literal is scanned as one, in any case. -/
theorem lexeme?_literalWord {w : String} (hw : w ∈ literalWords) {m rest : List Char}
    (hm : m.map foldCase = w.toList) (hrest : endsWord rest = true) :
    ∃ kind ∈ [TokenKind.boolean, .null],
      lexeme? .filter (m ++ rest) = some (kind, m, rest) := by
  by_cases hnull : w = "null"
  · subst hnull
    exact ⟨.null, by decide, lexeme?_null hrest hm⟩
  · have hothers : ∀ w ∈ literalWords, w ≠ "null" →
        w.toList ∈ ["true".toList, "false".toList] := by decide
    refine ⟨.boolean, by decide, lexeme?_boolean hrest ?_⟩
    rw [hm]
    exact hothers w hw hnull

namespace IsAttributeName

variable {a : String}

/-- Attribute names are made of ASCII characters. -/
theorem isAlphanum (ha : IsAttributeName a) :
    ∀ c ∈ a.toList, c.isAlphanum = true ∨ c = '-' ∨ c = '_' := by
  obtain ⟨c, cs, htext, hc, hcs⟩ := ha
  rw [htext, List.forall_mem_cons]
  exact ⟨.inl (by simp [Char.isAlphanum, hc]), hcs⟩

/-- The characters of attribute names are those that names of a scan are made of. -/
theorem isNameChar (ha : IsAttributeName a) : ∀ c ∈ a.toList, isNameChar c = true :=
  fun c hc => isNameChar_of_isAlphanum (ha.isAlphanum c hc)

/-- Folding goes no further here than to the lower case. -/
theorem map_foldCase (ha : IsAttributeName a) {m : List Char} (hm : m ⊆ a.toList) :
    m.map foldCase = m.map Char.toLower := by
  refine List.map_congr_left fun c hc => ?_
  rcases ha.isAlphanum c (hm hc) with h | rfl | rfl
  · have hall : ∀ c : Char, c.toNat < 128 → foldCase c = c.toLower :=
      forall_ascii (by decide +kernel)
    exact hall c (ascii_of_isAlphanum h)
  all_goals decide

/-- Only a hyphen ends a word. -/
theorem eq_hyphen (ha : IsAttributeName a) {d : Char} (hd : d ∈ a.toList)
    (hword : isWord d = false) : d = '-' := by
  rcases ha.isAlphanum d hd with h | rfl | rfl
  · have hall : ∀ c : Char, c.toNat < 128 → c.isAlphanum = true → isWord c = true :=
      forall_ascii (by decide +kernel)
    rw [hall d (ascii_of_isAlphanum h) h] at hword
    contradiction
  · rfl
  · exact absurd hword (by decide +kernel)

/-- A literal in front of a name is all of it or ends at a hyphen. -/
theorem literal_or_hyphenated (ha : IsAttributeName a) {k : TokenKind}
    (hk : k ∈ [TokenKind.boolean, .null]) {m rest : List Char}
    (hfound : recogniserOf k a.toList = some (m, rest)) :
    (∃ w ∈ literalWords, sameIgnoringCase a w = true) ∨ ∃ word, IsHyphenated word a := by
  obtain ⟨hsplit, ⟨w, hw, hm⟩, hends⟩ := exists_literalWord hk hfound
  rw [ha.map_foldCase (by simp [hsplit])] at hm
  -- The literal is all of the name, or a character follows that ends a word.
  cases rest with
  | nil =>
      refine .inl ⟨w, hw, (sameIgnoringCase_literalWord_iff hw).mpr ?_⟩
      rw [hsplit, List.append_nil, hm]
  | cons d rest =>
      have hword : isWord d = false := by simpa [endsWord] using hends
      obtain rfl : d = '-' := ha.eq_hyphen (by simp [hsplit]) hword
      have hsame : sameIgnoringCase (String.ofList m) w = true := by
        rw [sameIgnoringCase_literalWord_iff hw, String.toList_ofList, hm]
      refine .inr ⟨String.ofList m, ⟨w, hw, hsame⟩, String.ofList rest, ?_⟩
      apply String.toList_injective
      simp [hsplit]

/-- A name that is no literal and no hyphenated one is scanned as a name. -/
theorem isName (ha : IsAttributeName a)
    (hkeyword : ∀ w ∈ literalWords, sameIgnoringCase a w = false)
    (hhyphen : ∀ word, ¬ IsHyphenated word a) : IsName a.toList := by
  have hrow : ∀ k ∈ [TokenKind.boolean, .null], recogniserOf k a.toList = none := by
    intro k hk
    rw [Option.eq_none_iff_forall_ne_some]
    rintro ⟨m, rest⟩ hfound
    rcases ha.literal_or_hyphenated hk hfound with ⟨w, hw, hsame⟩ | ⟨word, hword⟩
    · rw [hkeyword w hw] at hsame
      contradiction
    · exact hhyphen word hword
  have hchars := ha.isNameChar
  obtain ⟨c, cs, htext, hc, -⟩ := ha
  rw [htext] at hrow hchars ⊢
  have hdigit : c.isDigit = false := by
    have hall : ∀ c : Char, c.toNat < 128 → c.isAlpha = true → c.isDigit = false :=
      forall_ascii (by decide +kernel)
    exact hall c (ascii_of_isAlphanum (by simp [Char.isAlphanum, hc])) hc
  exact isName_of_nameChars hchars hdigit (hrow .boolean (by decide)) (hrow .null (by decide))

/-- A name without a schema and without a sub-attribute. -/
theorem ofName_eq (ha : IsAttributeName a) : AttributePath.ofName a = .ofSingle a := by
  have hcolon : ':' ∉ a.toList := fun hmem => absurd (ha.isNameChar ':' hmem) (by decide)
  have hdot : '.' ∉ a.toList := fun hmem => absurd (ha.isNameChar '.' hmem) (by decide)
  unfold AttributePath.ofName
  rw [AttributePath.splitAtLastColon_eq_none hcolon]
  dsimp only
  rw [AttributePath.splitAtDots_eq_self hdot]
  simp [AttributePath.ofSingle]

end IsAttributeName

/-! ### Hyphenated literals -/

/-- A word for a literal in front of a hyphen is that literal, and what is left is a name. -/
theorem IsHyphenated.yields {word a : String} (h : IsHyphenated word a) (ha : IsAttributeName a) :
    ∃ kind ∈ [TokenKind.boolean, .null], Yields (a ++ " pr").toList [] fun ts =>
      ∃ t us, ts = t :: us ∧ t.kind = kind ∧ t.text = word := by
  obtain ⟨⟨w, hw, hsame⟩, rest, rfl⟩ := h
  have hparts : (word ++ "-" ++ rest).toList = word.toList ++ '-' :: rest.toList := by simp
  have hname : IsName ('-' :: rest.toList) := by
    refine isName_of_nameChars (fun c hc => ha.isNameChar c ?_) (by decide)
      (boolean_cons_eq_none (by decide) (by decide) _) (null_cons_eq_none (by decide) _)
    rw [hparts]
    exact List.mem_append_right _ hc
  have hfold : word.toList.map foldCase = w.toList := by
    rw [ha.map_foldCase (by simp)]
    exact (sameIgnoringCase_literalWord_iff hw).mp hsame
  have hends : endsWord ('-' :: (rest.toList ++ " pr".toList)) = true := by
    show (!isWord '-') = true
    decide +kernel
  obtain ⟨kind, hkind, hlex⟩ := lexeme?_literalWord hw hfold hends
  refine ⟨kind, hkind, ?_⟩
  rw [String.toList_append, hparts, List.append_assoc, List.cons_append]
  -- The literal, what is left of the name, and the operator.
  refine .step hlex fun literal hliteral hliteralText => ?_
  refine .step (hname.lexeme?_blank (by simp) (by decide) _) fun name _ _ => ?_
  refine .step (lexeme?_present delimited_nil) fun operator _ _ => .done ?_
  exact ⟨literal, _, rfl, hliteral, by rw [hliteralText, String.ofList_toList]⟩

/-- What starts with neither a parenthesis nor `not` nor a name is refused at its first token. -/
theorem parseFilter_eq_unexpectedToken {input : String} {t : Token} {ts : List Token}
    (hscan : tokensFrom .filter 0 input.toList = .ok (t :: ts))
    (hkind : t.kind ∉ [TokenKind.parenOpen, .negation, .name]) :
    parseFilter input = .error (.unexpectedToken t.text t.kind .start) := by
  have hoffset : t.offset = 0 := by
    have hscans : Scans .filter 0 input.toList ([] ++ t :: ts) [] :=
      tokensFrom_eq_ok_iff.mp hscan
    simpa using hscans.offset_eq
  have hlocate : Location.locate input 0 = .start :=
    Location.locate_of_toList_eq (List.nil_append input.toList).symm
  simp only [List.mem_cons, List.not_mem_nil, or_false, not_or] at hkind
  rw [parseFilter_eq_slices]
  refine outcome_bind_eq_error_iff.mpr (.inr ⟨_, outcome_scan hscan input, ?_⟩)
  refine outcome_bind_eq_error_iff.mpr (.inl ?_)
  rw [Policy.expression]
  refine outcome_bind_eq_error_iff.mpr (.inl ?_)
  have hrest : (TokenStream.make input (t :: ts)).rest = t :: ts := rfl
  rw [Reading.primary, isNext_of_rest_eq hrest, isNext_of_rest_eq hrest, isNext_of_rest_eq hrest,
    if_neg (by simp [hkind.1]), if_neg (by simp [hkind.2.1]), if_neg (by simp [hkind.2.2])]
  show Except.error (ParseError.unexpectedToken t.text t.kind (Location.locate input t.offset)) = _
  rw [hoffset, hlocate]

/-- An attribute name other than a keyword is read as a name, unless it is a literal and more behind
a hyphen. Then it is refused at the literal. -/
theorem parseFilter_attributeName {a : String} (ha : IsAttributeName a)
    (hkeyword : ∀ w ∈ ["true", "false", "null", "not"], sameIgnoringCase a w = false) :
    ((∀ word, ¬ IsHyphenated word a) →
      parseFilter (a ++ " pr") = .ok (some (.comparison (.present (.ofSingle a))))) ∧
    ∀ word, IsHyphenated word a → ∃ kind ∈ [TokenKind.boolean, .null],
      parseFilter (a ++ " pr") = .error (.unexpectedToken word kind .start) := by
  constructor
  · intro hhyphen
    have hliterals : ∀ w ∈ literalWords, w ∈ ["true", "false", "null", "not"] := by decide
    have hname := ha.isName (fun w hw => hkeyword w (hliterals w hw)) hhyphen
    have hpath : (AttributePath.ofSingle a).Comparable := by
      rw [← ha.ofName_eq]
      exact ⟨hname.lexable, by rw [AttributePath.render_ofName]; exact hkeyword "not" (by decide)⟩
    have hwritable : (Comparison.present (.ofSingle a)).Writable := by
      have hvalue : (Comparison.present (.ofSingle a)).value? = none := rfl
      exact ⟨hpath, by simp [hvalue]⟩
    have htext : (Comparison.present (.ofSingle a)).render none = a ++ " pr" := by
      show a ++ " " ++ "pr" = a ++ " pr"
      rw [String.append_assoc]
      rfl
    rw [← htext]
    exact parseFilter_of_readAs (readAs_comparison hwritable false).single
  · intro word hword
    -- An expression cannot start with a literal.
    have hothers : ∀ kind ∈ [TokenKind.boolean, .null],
        kind ∉ [TokenKind.parenOpen, .negation, .name] := by decide
    obtain ⟨kind, hkind, hyields⟩ := hword.yields ha
    obtain ⟨_, hscan, t, us, rfl, rfl, rfl⟩ := hyields 0
    exact ⟨t.kind, hkind,
      parseFilter_eq_unexpectedToken (tokensFrom_eq_ok_iff.mpr hscan) (hothers t.kind hkind)⟩

/-- A name that goes on behind `null` with a letter, and one that goes on behind `true` with a
hyphen. -/
theorem parseFilter_attributeName_prefixed :
    parseFilter "nullable pr" = .ok (some (.comparison (.present (.ofSingle "nullable")))) ∧
    ∃ kind ∈ [TokenKind.boolean, .null],
      parseFilter "True-x pr" = .error (.unexpectedToken "True" kind .start) := by
  have hnullable : ∀ word, ¬ IsHyphenated word "nullable" := by
    rintro word ⟨-, rest, htext⟩
    have hmem : '-' ∈ (word ++ "-" ++ rest).toList := by simp
    rw [← htext] at hmem
    exact absurd hmem (by decide)
  have htrue : IsHyphenated "True" "True-x" :=
    ⟨⟨"true", by decide, by decide⟩, "x", by decide⟩
  have hname : IsAttributeName "nullable" ∧ IsAttributeName "True-x" := by decide +kernel
  exact ⟨(parseFilter_attributeName hname.1 (by decide)).1 hnullable,
    (parseFilter_attributeName hname.2 (by decide)).2 "True" htrue⟩

end Scim
