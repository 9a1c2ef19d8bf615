import Scim.Proofs.Token.Delimiter

/-!
# `Scim.Proofs.Token.Keywords`: keywords in any case and with any blanks

Keywords are recognised in either case, and the blanks around them can be any and as many as one
likes; only in front of a comparison operator there is a single one. `Keyword` says for each kind of
token with a keyword what its text looks like and what may follow it.

The result is `lexeme?_eq_keyword_iff`: the scan takes a text for a token of such a kind exactly if
it looks like that. It is put together from:

* `blanks_eq_some_iff` and `words_eq_some_iff`, what the two parts of the rows find. A run of blanks
  is the longest there is. Of the words in a list, one at most fits, since none is the beginning of
  another one (`PrefixFree`).
* `keyword_of_recogniserOf` and `recogniserOf_of_keyword`: the row of the kind finds such texts and
  no others.
* `recogniserOf_eq_none_of_letter`, `recogniserOf_eq_none_of_n`, `recogniserOf_eq_none_of_blank`:
  no row before it does. A letter rules out almost all of them. What is left are keywords with the
  same first letter, `not` and `null`, and operators, which start with a blank: for these the second
  letter and the whole word decide.
-/

set_option autoImplicit false

namespace Scim

open Text Recogniser

/-! ### Runs and words -/

/-- A text that does not start with a blank. -/
def Unspaced (rest : List Char) : Prop :=
  ∀ c ∈ rest.head?, isBlank c = false

/-- It can be decided by a look at the first character. -/
instance (rest : List Char) : Decidable (Unspaced rest) :=
  decidable_of_iff (rest.head?.all (fun c => !isBlank c) = true) (by cases rest <;> simp [Unspaced])

/-- Blanks, at least one. -/
structure Blanks (run : List Char) : Prop where
  ne_nil : run ≠ []
  isBlank : ∀ c ∈ run, isBlank c = true

namespace Recogniser

/-- A run of characters of a class ends where a character is not of the class. -/
theorem many1_eq_some_iff_run {p : Char → Bool} {cs m rest : List Char} :
    many1 p cs = some (m, rest) ↔
      cs = m ++ rest ∧ m ≠ [] ∧ (∀ c ∈ m, p c = true) ∧ ∀ c ∈ rest.head?, p c = false := by
  rw [many1_eq_some_iff]
  constructor
  · rintro ⟨hne, rfl, rfl⟩
    refine ⟨List.takeWhile_append_dropWhile.symm, hne, List.all_eq_true.mp List.all_takeWhile, ?_⟩
    intro c hc
    have hnot := List.head?_dropWhile_not p cs
    rw [hc] at hnot
    simpa using hnot
  · rintro ⟨rfl, hne, hm, hrest⟩
    have htake : rest.takeWhile p = [] := by
      cases rest with
      | nil => rfl
      | cons c cs => simp [hrest c rfl]
    have hdrop : rest.dropWhile p = rest := by
      cases rest with
      | nil => rfl
      | cons c cs => simp [hrest c rfl]
    rw [List.takeWhile_append_of_pos hm, List.dropWhile_append_of_pos hm, htake, hdrop,
      List.append_nil]
    exact ⟨hne, rfl, rfl⟩

/-- A run of blanks ends where there is no other blank. -/
theorem blanks_eq_some_iff {cs m rest : List Char} :
    blanks cs = some (m, rest) ↔ cs = m ++ rest ∧ Blanks m ∧ Unspaced rest := by
  unfold blanks
  rw [many1_eq_some_iff_run]
  constructor
  · rintro ⟨hcs, hne, hm, hrest⟩
    exact ⟨hcs, ⟨hne, hm⟩, hrest⟩
  · rintro ⟨hcs, hm, hrest⟩
    exact ⟨hcs, hm.ne_nil, hm.isBlank, hrest⟩

/-- Keywords none of which is the beginning of another one. -/
def PrefixFree (ws : List String) : Prop :=
  ∀ w ∈ ws, ∀ w' ∈ ws, w.toList <+: w'.toList → w = w'

/-- A word of a list is found if the text starts with its letters, up to folding. -/
theorem words_eq_some_iff {ws : List String} (hws : PrefixFree ws) {cs m rest : List Char} :
    words ws cs = some (m, rest) ↔ cs = m ++ rest ∧ ∃ w ∈ ws, m.map foldCase = w.toList := by
  constructor
  · intro h
    obtain ⟨w, hw, hword⟩ := exists_word_of_words h
    obtain ⟨hcs, hm⟩ := word_eq_some_iff.mp hword
    exact ⟨hcs, w, hw, hm⟩
  · rintro ⟨rfl, w, hw, hm⟩
    -- Some keyword is found, and no other one can be.
    have hfound : ∀ ws' : List String, w ∈ ws' → ∃ found, words ws' (m ++ rest) = some found := by
      intro ws' hw'
      induction ws' with
      | nil => cases hw'
      | cons first others ih =>
          cases hfirst : word first.toList (m ++ rest) with
          | some found => exact ⟨found, Option.or_eq_some_iff.mpr (.inl hfirst)⟩
          | none =>
              rcases List.mem_cons.mp hw' with rfl | hw'
              · rw [word_eq_some_iff.mpr ⟨rfl, hm⟩] at hfirst
                cases hfirst
              · obtain ⟨found, hfound⟩ := ih hw'
                exact ⟨found, Option.or_eq_some_iff.mpr (.inr ⟨hfirst, hfound⟩)⟩
    obtain ⟨⟨m', rest'⟩, hfound⟩ := hfound ws hw
    obtain ⟨w', hw', hword⟩ := exists_word_of_words hfound
    obtain ⟨hsplit, hm'⟩ := word_eq_some_iff.mp hword
    have hsame : w = w' := by
      have hprefixes := List.prefix_or_prefix_of_prefix (List.prefix_append m rest)
        (hsplit ▸ List.prefix_append m' rest')
      rcases hprefixes with hshort | hshort
      · refine hws w hw w' hw' ?_
        rw [← hm, ← hm']
        exact hshort.map foldCase
      · refine (hws w' hw' w hw ?_).symm
        rw [← hm, ← hm']
        exact hshort.map foldCase
    have hlength : m.length = m'.length := by
      rw [← List.length_map foldCase, hm, hsame, ← hm', List.length_map]
    obtain ⟨rfl, rfl⟩ := List.append_inj hsplit hlength
    exact hfound

/-! ### What keywords look like -/

/-- The operators that take a value. -/
def binaryKeywords : List String := ["eq", "ne", "co", "sw", "ew", "gt", "lt", "ge", "le"]

/-- All keywords. -/
def keywords : List String :=
  ["true", "false", "null", "not", "and", "or", "pr"] ++ binaryKeywords

/-- A letter of a keyword is no blank. -/
theorem not_blank_of_letter {c : Char} (h : (foldCase c).isLower = true) : isBlank c = false := by
  rw [← Bool.not_eq_true]
  intro hblank
  have hname := (endsName_of_blank hblank).not_name
  simp [isNameChar, h] at hname

section
variable {k : String} (hk : k ∈ keywords) {w : List Char} (hw : w.map foldCase = k.toList)

include hk hw

/-- What is folded to a keyword are letters, a long s and a Kelvin sign among them. -/
theorem letters_of_keyword : ∀ c ∈ w, (foldCase c).isLower = true := by
  have hall : ∀ k ∈ keywords, k.toList.all Char.isLower = true := by decide
  intro c hc
  refine List.all_eq_true.mp (hall k hk) _ ?_
  rw [← hw]
  exact List.mem_map_of_mem hc

/-- None of them is a blank. -/
theorem not_blank_of_keyword : ∀ c ∈ w, isBlank c = false := by
  intro c hc
  exact not_blank_of_letter (letters_of_keyword hk hw c hc)

/-- A keyword has a first letter, and it is known up to folding. -/
theorem exists_cons_of_keyword : ∃ c cs, w = c :: cs ∧ k.toList.head? = some (foldCase c) := by
  have hall : ∀ k ∈ keywords, k.toList ≠ [] := by decide
  cases w with
  | nil => exact absurd hw.symm (hall k hk)
  | cons c cs =>
      refine ⟨c, cs, rfl, ?_⟩
      rw [← hw]
      rfl

/-- No blank stands in front of a keyword, so the blanks that a row takes before it are all there
are. -/
theorem unspaced_of_keyword (more : List Char) : Unspaced (w ++ more) := by
  obtain ⟨c, cs, rfl, -⟩ := exists_cons_of_keyword hk hw
  intro c' hc'
  obtain rfl : c = c' := by simpa using hc'
  exact not_blank_of_keyword hk hw c List.mem_cons_self

end

end Recogniser

/-- A token of a kind with a keyword, its text and what follows it. A literal and `pr` must be at
the end of a word. Everything else ends in blanks, and takes all of them. -/
inductive Keyword : TokenKind → List Char → List Char → Prop where
  | boolean {k : String} {w rest : List Char} (hk : k ∈ ["true", "false"])
    (hw : w.map foldCase = k.toList) (hrest : endsWord rest = true) : Keyword .boolean w rest
  | null {w rest : List Char} (hw : w.map foldCase = "null".toList)
    (hrest : endsWord rest = true) : Keyword .null w rest
  | negation {w run rest : List Char} (hw : w.map foldCase = "not".toList) (hrun : Blanks run)
    (hrest : Unspaced rest) : Keyword .negation (w ++ run) rest
  | logicalOperator {k : String} {before w after rest : List Char} (hbefore : Blanks before)
    (hk : k ∈ ["and", "or"]) (hw : w.map foldCase = k.toList) (hafter : Blanks after)
    (hrest : Unspaced rest) : Keyword .logicalOperator (before ++ (w ++ after)) rest
  | binary {k : String} {d : Char} {w after rest : List Char} (hd : isBlank d = true)
    (hk : k ∈ binaryKeywords) (hw : w.map foldCase = k.toList) (hafter : Blanks after)
    (hrest : Unspaced rest) : Keyword .comparisonOperator (d :: (w ++ after)) rest
  | present {d : Char} {w rest : List Char} (hd : isBlank d = true)
    (hw : w.map foldCase = "pr".toList) (hrest : endsWord rest = true) :
    Keyword .comparisonOperator (d :: w) rest

/-- The kinds of tokens with a keyword. -/
def keywordKinds : List TokenKind :=
  [.boolean, .null, .negation, .logicalOperator, .comparisonOperator]

/-! ### What the rows of keywords find -/

/-- What the row of a keyword finds looks like the keyword, and what follows is as it has to be. -/
theorem keyword_of_recogniserOf {kind : TokenKind} (hkind : kind ∈ keywordKinds)
    {cs m rest : List Char} (h : recogniserOf kind cs = some (m, rest)) : Keyword kind m rest := by
  simp only [keywordKinds, List.mem_cons, List.not_mem_nil, or_false] at hkind
  rcases hkind with rfl | rfl | rfl | rfl | rfl
  · obtain ⟨hword, hrest⟩ := followedBy_eq_some_iff.mp h
    obtain ⟨k, hk, hword⟩ := exists_word_of_words hword
    exact .boolean hk (word_eq_some_iff.mp hword).2 hrest
  · obtain ⟨hword, hrest⟩ := followedBy_eq_some_iff.mp h
    obtain ⟨k, hk, hword⟩ := exists_word_of_words hword
    obtain rfl := List.mem_singleton.mp hk
    exact .null (word_eq_some_iff.mp hword).2 hrest
  · obtain ⟨w, mid, run, hword, hrun, rfl⟩ := andThen_eq_some_iff.mp h
    obtain ⟨k, hk, hword⟩ := exists_word_of_words hword
    obtain rfl := List.mem_singleton.mp hk
    obtain ⟨-, hrun, hrest⟩ := blanks_eq_some_iff.mp hrun
    exact .negation (word_eq_some_iff.mp hword).2 hrun hrest
  · obtain ⟨before, mid, tail, hbefore, htail, rfl⟩ := andThen_eq_some_iff.mp h
    obtain ⟨w, mid', after, hword, hafter, rfl⟩ := andThen_eq_some_iff.mp htail
    obtain ⟨k, hk, hword⟩ := exists_word_of_words hword
    obtain ⟨-, hafter, hrest⟩ := blanks_eq_some_iff.mp hafter
    exact .logicalOperator (blanks_eq_some_iff.mp hbefore).2.1 hk (word_eq_some_iff.mp hword).2
      hafter hrest
  · obtain ⟨before, mid, tail, hbefore, htail, rfl⟩ := andThen_eq_some_iff.mp h
    -- A comparison operator has a single blank in front, and takes a value or is `pr`.
    obtain ⟨d, hd, rfl⟩ : ∃ d, isBlank d = true ∧ before = [d] := by
      cases cs with
      | nil => cases hbefore
      | cons d cs =>
          rw [one] at hbefore
          split at hbefore
          · next hd =>
              cases hbefore
              exact ⟨d, hd, rfl⟩
          · cases hbefore
    rcases Option.or_eq_some_iff.mp htail with hbinary | ⟨-, hpresent⟩
    · obtain ⟨w, mid', after, hword, hafter, rfl⟩ := andThen_eq_some_iff.mp hbinary
      obtain ⟨k, hk, hword⟩ := exists_word_of_words hword
      obtain ⟨-, hafter, hrest⟩ := blanks_eq_some_iff.mp hafter
      show Keyword .comparisonOperator (d :: (w ++ after)) rest
      exact .binary hd hk (word_eq_some_iff.mp hword).2 hafter hrest
    · obtain ⟨hword, hrest⟩ := followedBy_eq_some_iff.mp hpresent
      obtain ⟨k, hk, hword⟩ := exists_word_of_words hword
      obtain rfl := List.mem_singleton.mp hk
      exact .present hd (word_eq_some_iff.mp hword).2 hrest

/-- What looks like a keyword is found by its row. -/
theorem recogniserOf_of_keyword {kind : TokenKind} {m rest : List Char}
    (h : Keyword kind m rest) : recogniserOf kind (m ++ rest) = some (m, rest) := by
  -- No keyword of a row starts with another one, so the first that fits is the right one.
  have hfree : ∀ ws ∈ [["true", "false"], ["null"], ["not"], ["and", "or"], ["pr"],
      binaryKeywords], PrefixFree ws := by
    unfold PrefixFree
    decide
  cases h with
  | boolean hk hw hrest =>
      refine followedBy_eq_some_iff.mpr ⟨?_, hrest⟩
      exact (words_eq_some_iff (hfree _ (by decide))).mpr ⟨rfl, _, hk, hw⟩
  | null hw hrest =>
      refine followedBy_eq_some_iff.mpr ⟨?_, hrest⟩
      exact (words_eq_some_iff (hfree _ (by decide))).mpr ⟨rfl, _, List.mem_singleton_self _, hw⟩
  | @negation w run rest hw hrun hrest =>
      refine andThen_eq_some_iff.mpr ⟨w, run ++ rest, run, ?_, ?_, rfl⟩
      · exact (words_eq_some_iff (hfree _ (by decide))).mpr
          ⟨List.append_assoc w run rest, _, List.mem_singleton_self _, hw⟩
      · exact blanks_eq_some_iff.mpr ⟨rfl, hrun, hrest⟩
  | @logicalOperator k before w after rest hbefore hk hw hafter hrest =>
      have hkeyword : k ∈ keywords := (by decide : ["and", "or"] ⊆ keywords) hk
      refine andThen_eq_some_iff.mpr ⟨before, w ++ (after ++ rest), w ++ after, ?_, ?_, rfl⟩
      · exact blanks_eq_some_iff.mpr ⟨by simp, hbefore, unspaced_of_keyword hkeyword hw _⟩
      · refine andThen_eq_some_iff.mpr ⟨w, after ++ rest, after, ?_, ?_, rfl⟩
        · exact (words_eq_some_iff (hfree _ (by decide))).mpr ⟨rfl, _, hk, hw⟩
        · exact blanks_eq_some_iff.mpr ⟨rfl, hafter, hrest⟩
  | @binary k d w after rest hd hk hw hafter hrest =>
      refine andThen_eq_some_iff.mpr ⟨[d], w ++ (after ++ rest), w ++ after, ?_, ?_, rfl⟩
      · simp [one, hd]
      · refine Option.or_eq_some_iff.mpr (.inl ?_)
        refine andThen_eq_some_iff.mpr ⟨w, after ++ rest, after, ?_, ?_, rfl⟩
        · exact (words_eq_some_iff (hfree _ (by decide))).mpr ⟨rfl, _, hk, hw⟩
        · exact blanks_eq_some_iff.mpr ⟨rfl, hafter, hrest⟩
  | @present d w rest hd hw hrest =>
      obtain ⟨c, cs, rfl, hc⟩ := exists_cons_of_keyword (by decide : "pr" ∈ keywords) hw
      refine andThen_eq_some_iff.mpr ⟨[d], c :: cs ++ rest, c :: cs, ?_, ?_, rfl⟩
      · simp [one, hd]
      · -- No operator that takes a value starts with this letter.
        have hother : words binaryKeywords (c :: (cs ++ rest)) = none := by
          refine words_cons_eq_none ?_ _
          rw [← Option.some.inj hc]
          decide
        refine Option.or_eq_some_iff.mpr (.inr ⟨andThen_eq_none hother, ?_⟩)
        refine followedBy_eq_some_iff.mpr ⟨?_, hrest⟩
        exact (words_eq_some_iff (hfree _ (by decide))).mpr
          ⟨rfl, _, List.mem_singleton_self _, hw⟩

/-! ### Rows that a first character rules out -/

/-- A letter in either case rules out every row for something that starts with another
character. -/
theorem recogniserOf_eq_none_of_letter {c : Char} (hc : (foldCase c).isLower = true)
    {k : TokenKind}
    (hk : k ∈ [TokenKind.number, .string, .parenOpen, .parenClose, .bracketOpen, .bracketClose])
    (cs : List Char) : recogniserOf k (c :: cs) = none := by
  have hother : ∀ c' : Char, (foldCase c').isLower = false → c ≠ c' := by
    rintro c' hc' rfl
    rw [hc] at hc'
    contradiction
  have hdigit : c.isDigit = false := by
    rw [← Bool.not_eq_true]
    intro hdigit
    have hascii : c.toNat < 128 := ascii_of_isAlphanum (by simp [Char.isAlphanum, hdigit])
    have hall : ∀ c : Char, c.toNat < 128 → c.isDigit = true → (foldCase c).isLower = false :=
      forall_ascii (by decide +kernel)
    exact hother c (hall c hascii hdigit) rfl
  simp only [List.mem_cons, List.not_mem_nil, or_false] at hk
  rcases hk with rfl | rfl | rfl | rfl | rfl | rfl
  · exact number_cons_eq_none hdigit cs
  · exact string_cons_eq_none (hother '"' (by decide)) cs
  all_goals exact exactly_cons_eq_none (hother _ (by decide)) cs

/-- Of the keywords that are tried before `not`, only `null` has the same first letter. -/
theorem recogniserOf_eq_none_of_n {c : Char} (hc : foldCase c = 'n') {k : TokenKind}
    (hk : k ∈ kindsBefore .negation) (hnull : k ≠ .null) (cs : List Char) :
    recogniserOf k (c :: cs) = none := by
  by_cases hboolean : k = .boolean
  · subst hboolean
    exact boolean_cons_eq_none (by rw [hc]; decide) (by rw [hc]; decide) cs
  · refine recogniserOf_eq_none_of_letter (by rw [hc]; decide) ?_ cs
    revert k
    decide

/-- Only operators start with a blank. -/
theorem recogniserOf_eq_none_of_blank {c : Char} (hc : isBlank c = true) {k : TokenKind}
    (hk : k ≠ .logicalOperator ∧ k ≠ .comparisonOperator) (cs : List Char) :
    recogniserOf k (c :: cs) = none := by
  have hends := endsName_of_blank hc
  have hother : ∀ entry ∈ decisive, c ≠ entry.2 := by
    rintro entry hentry rfl
    have hall : ∀ entry ∈ decisive, isBlank entry.2 = false := by decide
    rw [hall entry hentry] at hc
    contradiction
  have hn : foldCase c ≠ 'n' := fun h => hends.not_null "null" (by simp) (by simp [h])
  -- Only operators start with a blank.
  cases k with
  | number => exact number_cons_eq_none hends.not_digit cs
  | string => exact string_cons_eq_none (hother (.string, '"') (by decide)) cs
  | boolean =>
      exact boolean_cons_eq_none (fun h => hends.not_boolean "true" (by simp) (by simp [h]))
        (fun h => hends.not_boolean "false" (by simp) (by simp [h])) cs
  | null => exact null_cons_eq_none hn cs
  | parenOpen => exact exactly_cons_eq_none (hother (.parenOpen, '(') (by decide)) cs
  | parenClose => exact exactly_cons_eq_none (hother (.parenClose, ')') (by decide)) cs
  | bracketOpen => exact exactly_cons_eq_none (hother (.bracketOpen, '[') (by decide)) cs
  | bracketClose => exact exactly_cons_eq_none (hother (.bracketClose, ']') (by decide)) cs
  | negation => exact negation_cons_eq_none hn cs
  | logicalOperator => exact absurd rfl hk.1
  | comparisonOperator => exact absurd rfl hk.2
  | name => exact name_cons_eq_none hends.not_schema hends.not_name cs
  | subAttribute => exact subAttribute_cons_eq_none hends.not_dot cs

/-! ### Keywords in a scan -/

/-- A comparison operator is not taken for a logical one. -/
theorem logicalOperator_eq_none_of_keyword {d : Char} (hd : isBlank d = true) {k : String}
    (hk : k ∈ "pr" :: binaryKeywords) {w : List Char} (hw : w.map foldCase = k.toList)
    (more : List Char) : logicalOperator (d :: (w ++ more)) = none := by
  have hkeyword : k ∈ keywords := (by decide : "pr" :: binaryKeywords ⊆ keywords) hk
  have hblanks : blanks (d :: (w ++ more)) = some ([d], w ++ more) :=
    blanks_eq_some_iff.mpr ⟨rfl, ⟨by simp, by simpa using hd⟩, unspaced_of_keyword hkeyword hw more⟩
  obtain ⟨c, cs, rfl, hc⟩ := exists_cons_of_keyword hkeyword hw
  have hother : words ["and", "or"] (c :: (cs ++ more)) = none := by
    have hall : ∀ k ∈ "pr" :: binaryKeywords, ∀ w ∈ ["and", "or"],
        k.toList.head?.any (fun c => w.toList.head?.any (· != c)) = true := by
      decide
    have hfirst := hall k hk
    rw [hc] at hfirst
    exact words_cons_eq_none hfirst _
  unfold logicalOperator
  rw [andThen, hblanks]
  simp [andThen_eq_none hother]

/-- The keywords `not` and `null` differ in their second letter. -/
theorem null_eq_none_of_not {w : List Char} (hw : w.map foldCase = "not".toList)
    (more : List Char) : null (w ++ more) = none := by
  rw [← Option.not_isSome_iff_eq_none, Option.isSome_iff_exists]
  rintro ⟨⟨m, rest⟩, hfound⟩
  have hsplit := null_splits _ _ _ hfound
  cases keyword_of_recogniserOf (by decide : .null ∈ keywordKinds) hfound with
  | null hm hrest =>
      have hletters := congrArg (fun cs => (cs.map foldCase).take 2) hsplit
      simp [hm, hw] at hletters

/-- What looks like a keyword is the first token of the text, since no row before its own finds
anything. -/
theorem lexeme?_of_keyword (mode : Mode) {kind : TokenKind} {m rest : List Char}
    (h : Keyword kind m rest) : lexeme? mode (m ++ rest) = some (kind, m, rest) := by
  have hfound := recogniserOf_of_keyword h
  have hkinds : kind ∈ kinds mode := by
    cases mode <;> cases h <;> decide
  refine lexeme?_eq_some_iff.mpr ⟨hkinds, hfound, ?_⟩
  -- The rows before that of the keyword are excluded by its first character, save two that can
  -- start alike: `null` with `not`, and logical operators with the others.
  cases h with
  | @boolean k' w rest hk' hw hrest =>
      have hkeyword : k' ∈ keywords := (by decide : ["true", "false"] ⊆ keywords) hk'
      obtain ⟨c, cs, rfl, -⟩ := exists_cons_of_keyword hkeyword hw
      have hletter := letters_of_keyword hkeyword hw c List.mem_cons_self
      intro k hk
      refine recogniserOf_eq_none_of_letter hletter ?_ _
      revert k
      decide
  | @null w rest hw hrest =>
      obtain ⟨c, cs, rfl, hc⟩ := exists_cons_of_keyword (by decide : "null" ∈ keywords) hw
      intro k hk
      refine recogniserOf_eq_none_of_n (Option.some.inj hc).symm ?_ ?_ _ <;>
        · revert k
          decide
  | @negation w run rest hw hrun hrest =>
      intro k hk
      by_cases hnull : k = .null
      · subst hnull
        rw [List.append_assoc]
        exact null_eq_none_of_not hw _
      · obtain ⟨c, cs, rfl, hc⟩ := exists_cons_of_keyword (by decide : "not" ∈ keywords) hw
        exact recogniserOf_eq_none_of_n (Option.some.inj hc).symm hk hnull _
  | @logicalOperator k before w after rest hbefore hk hw hafter hrest =>
      intro k hk
      obtain ⟨d, more, rfl⟩ := List.exists_cons_of_ne_nil hbefore.ne_nil
      refine recogniserOf_eq_none_of_blank (hbefore.isBlank d List.mem_cons_self) ?_ _
      revert k
      decide
  | @binary k' d w after rest hd hk' hw hafter hrest =>
      intro k hk
      by_cases hlogical : k = .logicalOperator
      · subst hlogical
        rw [List.cons_append, List.append_assoc]
        exact logicalOperator_eq_none_of_keyword hd (List.mem_cons_of_mem _ hk') hw _
      · refine recogniserOf_eq_none_of_blank hd ?_ _
        revert k
        decide
  | @present d w rest hd hw hrest =>
      intro k hk
      by_cases hlogical : k = .logicalOperator
      · subst hlogical
        exact logicalOperator_eq_none_of_keyword hd List.mem_cons_self hw _
      · refine recogniserOf_eq_none_of_blank hd ?_ _
        revert k
        decide

/-- A text starts with a token of a kind with a keyword exactly if it looks like one. -/
theorem lexeme?_eq_keyword_iff (mode : Mode) {kind : TokenKind} (hkind : kind ∈ keywordKinds)
    {m rest : List Char} :
    lexeme? mode (m ++ rest) = some (kind, m, rest) ↔ Keyword kind m rest := by
  constructor
  · intro h
    exact keyword_of_recogniserOf hkind (recogniserOf_of_lexeme? h)
  · exact lexeme?_of_keyword mode

end Scim
