import Scim.Operator
import Scim.Proofs.Number.Text
import Scim.Proofs.Token.Keywords
import Scim.Proofs.Token.Rescan

/-!
# `Scim.Proofs.Token.Written`: the tokens of a text that is written piece by piece

An expression is written as a sequence of pieces: names, operators, literals, parentheses. Each
piece is found again as one token, provided that what comes next cannot be taken for a part of it.
There are two such conditions: a literal or a name has to be followed by a delimiter (`Delimited`),
and blanks at the end of an operator must not be followed by another blank (`Unspaced`).

`Yields` says that a text is scanned up to a given rest, and that the tokens have a property. Proofs
about written text go through it one piece after the other (`Yields.step`, `Yields.append`). For
each kind of piece there is a lemma that says that it is found:

* `lexeme?_number`, `lexeme?_string`, `lexeme?_boolean`, `lexeme?_null` for literals;
* `lexeme?_negation`, `lexeme?_logicalOperator`, `lexeme?_binary`, `lexeme?_present` for keywords,
  written in lower case and with single spaces. `read_spaced_logicalOperator` and
  `read_spaced_operator` say that such an operator is also read as the one it was written for;
* `IsName.lexeme?_append` for names in front of a delimiter, with `IsName.lexeme?_blank` and
  `IsName.lexeme?_bracketOpen` for the two that can follow.

Names are the hard case, because the rows before that of a name see the text behind it as well. In
front of a delimiter they find the same as at the end of the text (`recogniserOf_append_delimiter`),
with one exception: the name `not` is taken for a negation if a blank follows
(`negation_append_blank`).
-/

set_option autoImplicit false

namespace Scim

open Text Recogniser Number

/-! ### Scanning piece by piece -/

/-- From any offset, the text up to the rest is scanned to tokens with this property. -/
def Yields (cs rest : List Char) (P : List Token → Prop) : Prop :=
  ∀ offset, ∃ ts, Scans .filter offset cs ts rest ∧ P ts

namespace Yields

variable {cs mid rest : List Char} {P Q : List Token → Prop}

/-- Nothing is scanned to no tokens. -/
theorem done (h : P []) : Yields rest rest P :=
  fun offset => ⟨[], .done offset rest, h⟩

/-- One piece, which is found as a token, and the text behind it. -/
theorem step {kind : TokenKind} {m : List Char} (hlex : lexeme? .filter cs = some (kind, m, mid))
    (h : ∀ t : Token, t.kind = kind → t.text = String.ofList m →
      Yields mid rest fun ts => P (t :: ts)) : Yields cs rest P := by
  intro offset
  obtain ⟨ts, hscan, hP⟩ := h ⟨kind, String.ofList m, offset⟩ rfl rfl
    (Token.mk kind (String.ofList m) offset).stop
  exact ⟨_, .step hlex hscan, hP⟩

/-- A part of the text and the part behind it. -/
theorem append (hfirst : Yields cs mid P)
    (hsecond : ∀ ts, P ts → Yields mid rest fun us => Q (ts ++ us)) : Yields cs rest Q := by
  intro offset
  obtain ⟨ts, hts, hP⟩ := hfirst offset
  obtain ⟨us, hus, hQ⟩ := hsecond ts hP (offset + String.utf8Len (Token.charsOf ts))
  exact ⟨ts ++ us, hts.append rfl hus, hQ⟩

/-- The tokens also have every weaker property. -/
theorem mono (h : Yields cs rest P) (hPQ : ∀ ts, P ts → Q ts) : Yields cs rest Q := by
  intro offset
  obtain ⟨ts, hts, hP⟩ := h offset
  exact ⟨ts, hts, hPQ ts hP⟩

end Yields

/-! ### What may come next -/

/-- Nothing at all, or a character that ends every literal and name. -/
def Delimited (rest : List Char) : Prop :=
  ∀ d ∈ rest.head?, EndsName d

/-- A recogniser that stops at every delimiter finds the same in front of a delimited text as at the
end. -/
theorem append_of_delimited {r : Recogniser} (hr : ∀ d, EndsName d → StopsAt r d)
    {rest : List Char} (hrest : Delimited rest) (cs : List Char) :
    r (cs ++ rest) = (r cs).map (extend rest) := by
  cases rest with
  | nil =>
      rw [List.append_nil]
      cases r cs with
      | none => rfl
      | some found => simp [extend]
  | cons d more => exact hr d (hrest d (by simp)) cs more

/-- A word ends in front of a delimited text. -/
theorem endsWord_of_delimited {rest : List Char} (hrest : Delimited rest) :
    endsWord rest = true := by
  cases rest with
  | nil => rfl
  | cons d more =>
      have hword := (hrest d (by simp)).not_word
      simp [endsWord, hword]

/-! ### Literals -/

/-- Digits are a number. -/
theorem number_digits {ds : List Char} (hds : Digits ds) : number ds = some (ds, []) := by
  unfold number
  have hfirst : many1 Char.isDigit ds = some (ds, []) :=
    many1_eq_some_iff.mpr ⟨hds.ne_nil, hds.takeWhile_eq.symm, hds.dropWhile_eq.symm⟩
  refine andThen_eq_some_iff.mpr ⟨ds, [], [], hfirst, ?_, by simp⟩
  rfl

/-- So are digits with a point between them. -/
theorem number_point {whole fraction : List Char} (hwhole : Digits whole)
    (hfraction : Digits fraction) :
    number (whole ++ '.' :: fraction) = some (whole ++ '.' :: fraction, []) := by
  unfold number
  have hfirst : many1 Char.isDigit (whole ++ '.' :: fraction) = some (whole, '.' :: fraction) :=
    many1_eq_some_iff.mpr
      ⟨hwhole.ne_nil, (hwhole.takeWhile_point _).symm, (hwhole.dropWhile_point _).symm⟩
  have hsecond : many1 Char.isDigit fraction = some (fraction, []) :=
    many1_eq_some_iff.mpr
      ⟨hfraction.ne_nil, hfraction.takeWhile_eq.symm, hfraction.dropWhile_eq.symm⟩
  refine andThen_eq_some_iff.mpr ⟨whole, '.' :: fraction, '.' :: fraction, hfirst, ?_, rfl⟩
  refine optional_eq_some_iff.mpr (.inl ?_)
  exact andThen_eq_some_iff.mpr
    ⟨['.'], fraction, fraction, exactly_eq_some_iff.mpr ⟨rfl, rfl⟩, hsecond, rfl⟩

/-- A number is found in front of a delimiter. -/
theorem lexeme?_number {cs rest : List Char} (h : number cs = some (cs, []))
    (hrest : Delimited rest) : lexeme? .filter (cs ++ rest) = some (.number, cs, rest) := by
  refine lexeme?_eq_some_iff.mpr ⟨by decide, ?_, by simp [kindsBefore, TokenKind.all]⟩
  show number (cs ++ rest) = _
  rw [append_of_delimited (fun _ hd => hd.number_stopsAt) hrest, h]
  rfl

/-- A string is found whatever is behind its second quote. -/
theorem lexeme?_string {body : List Char} (hbody : '"' ∉ body) (rest : List Char) :
    lexeme? .filter ('"' :: (body ++ ['"']) ++ rest)
      = some (.string, '"' :: (body ++ ['"']), rest) := by
  refine (lexeme?_of_decisive .filter (by decide : (.string, '"') ∈ decisive)).mpr ⟨rfl, ?_⟩
  exact string_eq_some_iff.mpr ⟨body, hbody, rfl, rfl⟩

section
variable {m rest : List Char} (hrest : endsWord rest = true)

include hrest

/-- `true` or `false`, in either case and at the end of a word. -/
theorem lexeme?_boolean (hm : m.map foldCase ∈ ["true".toList, "false".toList]) :
    lexeme? .filter (m ++ rest) = some (.boolean, m, rest) := by
  have hwords : m.map foldCase ∈ ["true", "false"].map String.toList := hm
  obtain ⟨k, hk, hw⟩ := List.mem_map.mp hwords
  exact lexeme?_of_keyword .filter (.boolean hk hw.symm hrest)

/-- `null`, in either case and at the end of a word. -/
theorem lexeme?_null (hm : m.map foldCase = "null".toList) :
    lexeme? .filter (m ++ rest) = some (.null, m, rest) :=
  lexeme?_of_keyword .filter (.null hm hrest)

end

/-! ### Keywords -/

/-- A single space is a run of blanks. -/
theorem blanks_space : Blanks [' '] :=
  ⟨by simp, by simp [(by decide : isBlank ' ' = true)]⟩

/-- A negation is found in front of anything but a blank. -/
theorem lexeme?_negation {rest : List Char} (hrest : Unspaced rest) :
    lexeme? .filter ("not ".toList ++ rest) = some (.negation, "not ".toList, rest) := by
  have hkeyword : Keyword .negation ("not".toList ++ [' ']) rest :=
    .negation (by decide) blanks_space hrest
  exact lexeme?_of_keyword .filter hkeyword

/-- Only operators start with a blank, so a text that starts with another token does not. -/
theorem unspaced_of_lexeme? {mode : Mode} {cs m rest : List Char} {kind : TokenKind}
    (h : lexeme? mode cs = some (kind, m, rest))
    (hkind : kind ≠ .logicalOperator ∧ kind ≠ .comparisonOperator) (more : List Char) :
    Unspaced (cs ++ more) := by
  obtain ⟨c, cs, rfl⟩ := List.exists_cons_of_ne_nil (ne_nil_of_lexeme? h)
  intro c' hc'
  obtain rfl : c = c' := by simpa using hc'
  rw [← Bool.not_eq_true]
  intro hblank
  have hfound := recogniserOf_of_lexeme? h
  rw [recogniserOf_eq_none_of_blank hblank hkind] at hfound
  contradiction

/-- A logical operator with a space on either side. -/
def LogicalOperator.spaced (operator : LogicalOperator) : List Char :=
  ' ' :: (operator.keyword.toList ++ [' '])

/-- A logical operator is found in front of anything but a blank. -/
theorem lexeme?_logicalOperator (operator : LogicalOperator) {rest : List Char}
    (hrest : Unspaced rest) :
    lexeme? .filter (operator.spaced ++ rest) = some (.logicalOperator, operator.spaced, rest) := by
  have hk : operator.keyword ∈ ["and", "or"] := by cases operator <;> decide
  have hw : operator.keyword.toList.map foldCase = operator.keyword.toList := by
    cases operator <;> decide
  have hkeyword : Keyword .logicalOperator ([' '] ++ (operator.keyword.toList ++ [' '])) rest :=
    .logicalOperator blanks_space hk hw blanks_space hrest
  exact lexeme?_of_keyword .filter hkeyword

/-- And it is read as the operator that was written. -/
theorem read_spaced_logicalOperator (operator : LogicalOperator) :
    LogicalOperator.read (String.ofList operator.spaced) = .ok operator := by
  cases operator <;> decide

/-- An operator that takes a value, with a space on either side. -/
def Operator.spaced (operator : Operator) : List Char :=
  ' ' :: (operator.keyword.toList ++ [' '])

/-- An operator that takes a value is found in front of anything but a blank. -/
theorem lexeme?_binary {operator : Operator} (hbinary : operator ≠ .pr) {rest : List Char}
    (hrest : Unspaced rest) :
    lexeme? .filter (operator.spaced ++ rest)
      = some (.comparisonOperator, operator.spaced, rest) := by
  have hk : operator.keyword ∈ binaryKeywords := by
    cases operator <;> first | decide | contradiction
  have hw : operator.keyword.toList.map foldCase = operator.keyword.toList := by
    cases operator <;> decide
  exact lexeme?_of_keyword .filter (.binary (by decide) hk hw blanks_space hrest)

/-- And it is read as the operator that was written. -/
theorem read_spaced_operator (operator : Operator) :
    Operator.read (String.ofList operator.spaced) = .ok operator := by
  cases operator <;> decide

/-- The operator without a value is found in front of a delimiter. -/
theorem lexeme?_present {rest : List Char} (hrest : Delimited rest) :
    lexeme? .filter (" pr".toList ++ rest) = some (.comparisonOperator, " pr".toList, rest) := by
  have hkeyword : Keyword .comparisonOperator (' ' :: "pr".toList) rest :=
    .present (by decide) (by decide) (endsWord_of_delimited hrest)
  exact lexeme?_of_keyword .filter hkeyword

/-! ### Names -/

/-- A text that is scanned as a single name. -/
def IsName (cs : List Char) : Prop :=
  lexeme? .filter cs = some (.name, cs, [])

/-- A text is a name exactly if its scan is a single token of that kind. -/
theorem isName_iff {text : String} :
    IsName text.toList ↔ tokensFrom .filter 0 text.toList = .ok [⟨.name, text, 0⟩] := by
  rw [tokensFrom_eq_ok_iff]
  constructor
  · intro h
    have hscan : Scans .filter 0 text.toList [⟨.name, String.ofList text.toList, 0⟩] [] :=
      .step h (.done _ [])
    rwa [String.ofList_toList] at hscan
  · intro h
    generalize htoken : (⟨.name, text, 0⟩ : Token) = token at h
    cases h with
    | step hlex hrest =>
        cases htoken
        cases hrest
        rwa [String.toList_ofList] at hlex ⊢

/-- Folding reaches the letters of `not` from those letters in either case alone. -/
theorem foldCase_eq_iff {c k : Char} (hk : k ∈ ['n', 'o', 't']) :
    foldCase c = k ↔ c.toLower = k := by
  simp only [List.mem_cons, List.not_mem_nil, or_false] at hk
  have hs : 's' ≠ k ∧ longS.toLower ≠ k := by
    rcases hk with rfl | rfl | rfl <;> decide
  have hkelvin : 'k' ≠ k ∧ kelvinSign.toLower ≠ k := by
    rcases hk with rfl | rfl | rfl <;> decide
  unfold foldCase
  split
  · next h =>
      subst h
      simp [hs]
  · split
    · next h =>
        subst h
        simp [hkelvin]
    · rfl

/-- The letters of `not` have no other folding than their own case, so both ways to compare agree.
-/
theorem map_foldCase_eq_not_iff {m : List Char} :
    m.map foldCase = "not".toList ↔ m.map Char.toLower = "not".toList := by
  -- Both sides say that there are three letters, and which ones.
  have hn := fun c : Char => foldCase_eq_iff (c := c) (by decide : 'n' ∈ ['n', 'o', 't'])
  have ho := fun c : Char => foldCase_eq_iff (c := c) (by decide : 'o' ∈ ['n', 'o', 't'])
  have ht := fun c : Char => foldCase_eq_iff (c := c) (by decide : 't' ∈ ['n', 'o', 't'])
  match m with
  | [] | [_] | [_, _] | _ :: _ :: _ :: _ :: _ => simp
  | [a, b, c] => simp [hn, ho, ht]

/-- A negation is found where `not` stands with a blank behind it. -/
theorem negation_eq_some_iff {cs : List Char} :
    (∃ found, negation cs = some found) ↔
      ∃ m d more, cs = m ++ d :: more ∧ m.map Char.toLower = "not".toList ∧ isBlank d = true := by
  have hwords : ∀ found, words ["not"] cs = some found ↔ word "not".toList cs = some found := by
    intro found
    simp [words, orElse]
  constructor
  · rintro ⟨⟨m, rest⟩, hfound⟩
    obtain ⟨m₁, mid, m₂, hword, hblanks, -⟩ := andThen_eq_some_iff.mp hfound
    obtain ⟨rfl, hm⟩ := word_eq_some_iff.mp ((hwords _).mp hword)
    obtain ⟨hne, htake, -⟩ := many1_eq_some_iff.mp hblanks
    -- Behind the keyword there is at least one blank.
    cases mid with
    | nil => simp [htake] at hne
    | cons d more =>
        refine ⟨m₁, d, more, rfl, map_foldCase_eq_not_iff.mp hm, ?_⟩
        rw [← Bool.not_eq_false]
        intro hd
        simp [htake, hd] at hne
  · rintro ⟨m, d, more, rfl, hm, hd⟩
    have hword := (hwords _).mpr (word_eq_some_iff.mpr ⟨rfl, map_foldCase_eq_not_iff.mpr hm⟩)
    have hblanks : many1 isBlank (d :: more)
        = some ((d :: more).takeWhile isBlank, (d :: more).dropWhile isBlank) :=
      many1_eq_some_iff.mpr ⟨by simp [hd], rfl, rfl⟩
    exact ⟨_, andThen_eq_some_iff.mpr ⟨_, _, _, hword, hblanks, rfl⟩⟩

/-- A text that is no negation with more behind it is none on its own. -/
theorem negation_eq_none_of_append {cs more : List Char} (h : negation (cs ++ more) = none) :
    negation cs = none := by
  rw [← Option.not_isSome_iff_eq_none, Option.isSome_iff_exists]
  intro hfound
  obtain ⟨m, d, rest, rfl, hm, hd⟩ := negation_eq_some_iff.mp hfound
  have hmore : ∃ found, negation (m ++ d :: rest ++ more) = some found :=
    negation_eq_some_iff.mpr ⟨m, d, rest ++ more, by simp, hm, hd⟩
  rw [h] at hmore
  simp at hmore

/-- A text is taken for a negation if it is `not` in any case and a blank follows. -/
theorem negation_append_blank {cs : List Char} (h : negation cs = none) {d : Char}
    (hd : isBlank d = true) (more : List Char) :
    negation (cs ++ d :: more) = none ↔ cs.map Char.toLower ≠ "not".toList := by
  rw [← not_iff_not, not_not, ← ne_eq, Option.ne_none_iff_exists', negation_eq_some_iff]
  constructor
  · rintro ⟨m, d', more', heq, hm, hd'⟩
    -- The word that was found ends at the blank, behind it or in front of it.
    rcases List.append_eq_append_iff.mp heq with ⟨x, rfl, hx⟩ | ⟨x, rfl, hx⟩
    · cases x with
      | nil => simpa using hm
      | cons y x =>
          -- The blank would have to be one of the three letters.
          obtain rfl : d = y := (List.cons.inj hx).1
          have hmem : d.toLower ∈ ['n', 'o', 't'] := by
            rw [show ['n', 'o', 't'] = "not".toList from rfl, ← hm]
            exact List.mem_map_of_mem (by simp)
          have hname := (endsName_of_blank hd).not_name
          have hletters : ['n', 'o', 't'].all Char.isLower = true := by decide
          have hlower := List.all_eq_true.mp hletters _ hmem
          rw [isNameChar, (foldCase_eq_iff hmem).mpr rfl] at hname
          simp [hlower] at hname
    · cases x with
      | nil => simpa using hm
      | cons y x =>
          -- Then the text without the blank has a negation already.
          obtain rfl : d' = y := (List.cons.inj hx).1
          obtain ⟨found, hfound⟩ := negation_eq_some_iff.mpr ⟨m, d', x, rfl, hm, hd'⟩
          rw [h] at hfound
          contradiction
  · intro hnot
    exact ⟨cs, d, more, rfl, hnot, hd⟩

/-- The rows that are tried before that of a name find the same in front of a delimiter. That of a
negation is the exception, which takes the blanks behind it. -/
theorem recogniserOf_append_delimiter {k : TokenKind} (hk : k ∈ kindsBefore .name)
    (hnegation : k ≠ .negation) {c : Char} (hblank : isBlank c = false) (hquote : c ≠ '"')
    {d : Char} (hd : EndsName d) (cs more : List Char) :
    recogniserOf k (c :: cs ++ d :: more)
      = (recogniserOf k (c :: cs)).map (extend (d :: more)) := by
  have hexactly : ∀ c', exactly c' (c :: cs ++ d :: more)
      = (exactly c' (c :: cs)).map (extend (d :: more)) := by
    intro c'
    simp only [exactly, one, List.cons_append]
    split <;> rfl
  -- Where the first character rules a row out, there is nothing in front of the delimiter either.
  have hout : ∀ {r : Recogniser}, (∀ cs, r (c :: cs) = none) →
      r (c :: cs ++ d :: more) = (r (c :: cs)).map (extend (d :: more)) := by
    intro r hr
    rw [List.cons_append, hr, hr]
    rfl
  cases k with
  | number => exact hd.number_stopsAt _ _
  | string => exact hout (string_cons_eq_none hquote)
  | boolean => exact hd.boolean_stopsAt _ _
  | null => exact hd.null_stopsAt _ _
  | parenOpen => exact hexactly '('
  | parenClose => exact hexactly ')'
  | bracketOpen => exact hexactly '['
  | bracketClose => exact hexactly ']'
  | negation => contradiction
  | logicalOperator => exact hout (logicalOperator_cons_eq_none hblank)
  | comparisonOperator => exact hout (comparisonOperator_cons_eq_none hblank)
  | name => exact absurd hk (by decide)
  | subAttribute => exact absurd hk (by decide)

/-- A quote starts a string and no name. -/
theorem ne_quote_of_lexeme?_name {mode : Mode} {c : Char} {cs m rest : List Char}
    (h : lexeme? mode (c :: cs) = some (.name, m, rest)) : c ≠ '"' := by
  rintro rfl
  have hkind := ((lexeme?_of_decisive mode (by decide : (.string, '"') ∈ decisive)).mp h).1
  contradiction

namespace IsName

variable {cs : List Char}

/-- A name is not empty. -/
theorem ne_nil (h : IsName cs) : cs ≠ [] :=
  ne_nil_of_lexeme? h

/-- A name does not start with a blank. -/
theorem unspaced (h : IsName cs) (more : List Char) : Unspaced (cs ++ more) :=
  unspaced_of_lexeme? h (by decide) more

/-- A name is found in front of a delimiter, unless it is taken for a negation. -/
theorem lexeme?_append (h : IsName cs) {d : Char} (hd : EndsName d) {more : List Char}
    (hnegation : negation (cs ++ d :: more) = none) :
    lexeme? .filter (cs ++ d :: more) = some (.name, cs, d :: more) := by
  obtain ⟨-, hfound, hbefore⟩ := lexeme?_eq_some_iff.mp h
  have hunspaced := h.unspaced []
  obtain ⟨c, cs, rfl⟩ := List.exists_cons_of_ne_nil h.ne_nil
  have hblank : isBlank c = false := hunspaced c (by simp)
  refine lexeme?_eq_some_iff.mpr ⟨by decide, ?_, ?_⟩
  · show name _ = _
    rw [hd.name_stopsAt, show name (c :: cs) = _ from hfound]
    rfl
  · intro k hk
    -- The row of `not` looks for a blank behind it, which may be the delimiter.
    by_cases hkind : k = .negation
    · rw [hkind]
      exact hnegation
    · rw [recogniserOf_append_delimiter hk hkind hblank (ne_quote_of_lexeme?_name h) hd,
        hbefore k hk]
      rfl

/-- A name that is found in front of a delimiter is a name on its own. -/
theorem of_lexeme? {d : Char} (hd : EndsName d) {more : List Char}
    (h : lexeme? .filter (cs ++ d :: more) = some (.name, cs, d :: more)) : IsName cs := by
  obtain ⟨-, hfound, hbefore⟩ := lexeme?_eq_some_iff.mp h
  have hunspaced := unspaced_of_lexeme? h (by decide) []
  obtain ⟨c, cs, rfl⟩ := List.exists_cons_of_ne_nil (lexeme?_splits h).2
  have hblank : isBlank c = false := hunspaced c (by simp)
  refine lexeme?_eq_some_iff.mpr ⟨by decide, ?_, ?_⟩
  · show name (c :: cs) = _
    rw [show recogniserOf .name = name from rfl, hd.name_stopsAt,
      Option.map_eq_some_iff] at hfound
    obtain ⟨⟨m, rest⟩, hname, hextend⟩ := hfound
    simp only [extend, Prod.mk.injEq, List.append_left_eq_self] at hextend
    rw [hname, hextend.1, hextend.2]
  · intro k hk
    have hnone := hbefore k hk
    by_cases hkind : k = .negation
    · rw [hkind] at hnone ⊢
      exact negation_eq_none_of_append hnone
    · rwa [recogniserOf_append_delimiter hk hkind hblank (ne_quote_of_lexeme?_name h) hd,
        Option.map_eq_none_iff] at hnone

/-- In front of a blank, a name other than `not`. -/
theorem lexeme?_blank (h : IsName cs) (hnot : cs.map Char.toLower ≠ "not".toList) {d : Char}
    (hd : isBlank d = true) (more : List Char) :
    lexeme? .filter (cs ++ d :: more) = some (.name, cs, d :: more) := by
  have hnegation : negation cs = none :=
    (lexeme?_eq_some_iff.mp h).2.2 .negation (by decide)
  exact h.lexeme?_append (endsName_of_blank hd) ((negation_append_blank hnegation hd more).mpr hnot)

/-- In front of a bracket, any name. -/
theorem lexeme?_bracketOpen (h : IsName cs) (more : List Char) :
    lexeme? .filter (cs ++ '[' :: more) = some (.name, cs, '[' :: more) := by
  have hnegation : negation cs = none :=
    (lexeme?_eq_some_iff.mp h).2.2 .negation (by decide)
  refine h.lexeme?_append (endsName_of_bracket (by decide)) ?_
  rw [negation_stopsAt (by decide), hnegation]
  rfl

end IsName

end Scim
