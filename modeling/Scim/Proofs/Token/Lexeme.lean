import Scim.Token.Scan

/-!
# `Scim.Proofs.Token.Lexeme`: what a text starts with

`lexeme?` asks the rows of `Recogniser.table` one after the other, and a row is built from a few
combinators. This module turns that search into facts that later proofs can use without opening the
table. They come in layers:

* What each combinator finds: `andThen_eq_some_iff`, `optional_eq_some_iff`, `many1_eq_some_iff`,
  `followedBy_eq_some_iff`, and `word_eq_some_iff` for a keyword in any case. `string_eq_some_iff`
  says the same for strings, which are the one row with a class of characters all of its own.
* What a row cannot find. The lemmas `…_cons_eq_none` say which rows are out as soon as the first
  character is known, and `recogniserOf_productive` that no row finds the empty text.
* The search itself. `recogniserOf` gives every kind of token its row, and `table_eq_map` says that
  the table is no more than that, in a fixed order of the kinds.

The results are about the first token of a text:

* `lexeme?_eq_some_iff`: a token is what the recogniser of its kind finds, if those before it find
  nothing.
* `lexeme?_mode`: the two modes differ in the sub-attribute alone.
* `lexeme?_of_decisive`, `lexeme?_bracket`: a parenthesis, a bracket or a quote decides by itself
  which token comes next.

Facts about classes of ASCII characters are settled one character at a time (`forall_ascii`).
-/

set_option autoImplicit false

namespace Scim

open Text

namespace Recogniser

variable {r s : Recogniser} {p : Char → Bool}

/-! ### What the combinators find -/

/-- Two recognisers in a row succeed if the second one does on what the first one leaves. -/
theorem andThen_eq_some_iff {cs m rest : List Char} :
    andThen r s cs = some (m, rest) ↔
      ∃ m₁ mid m₂, r cs = some (m₁, mid) ∧ s mid = some (m₂, rest) ∧ m = m₁ ++ m₂ := by
  unfold andThen
  cases hr : r cs with
  | none => simp
  | some found =>
      obtain ⟨m₁, mid⟩ := found
      simp only [Option.map_eq_some_iff, Prod.mk.injEq, Prod.exists, Option.some.injEq]
      constructor
      · rintro ⟨m₂, rest', hs, rfl, rfl⟩
        exact ⟨m₁, mid, m₂, ⟨rfl, rfl⟩, hs, rfl⟩
      · rintro ⟨_, _, m₂, ⟨rfl, rfl⟩, hs, rfl⟩
        exact ⟨m₂, rest, hs, rfl, rfl⟩

/-- Nothing is found if the first of two recognisers finds nothing. -/
theorem andThen_eq_none {cs : List Char} (h : r cs = none) : andThen r s cs = none := by
  unfold andThen
  rw [h]

/-- An optional part is what the recogniser finds, and nothing if it finds nothing. -/
theorem optional_eq_some_iff {cs : List Char} {found : List Char × List Char} :
    optional r cs = some found ↔ r cs = some found ∨ (r cs = none ∧ found = ([], cs)) := by
  unfold optional
  cases r cs <;> simp [eq_comm]

/-- A run is not empty, and it is as long as the class of its characters allows. -/
theorem many1_eq_some_iff {cs m rest : List Char} :
    many1 p cs = some (m, rest) ↔ m ≠ [] ∧ m = cs.takeWhile p ∧ rest = cs.dropWhile p := by
  unfold many1
  split
  · next h =>
      rw [h]
      simp +contextual
  · next h =>
      simp only [Option.some.injEq, Prod.mk.injEq]
      constructor
      · rintro ⟨rfl, rfl⟩
        exact ⟨h, rfl, rfl⟩
      · rintro ⟨-, rfl, rfl⟩
        exact ⟨rfl, rfl⟩

/-- A single character is found where it stands. -/
theorem exactly_eq_some_iff {c : Char} {cs m rest : List Char} :
    exactly c cs = some (m, rest) ↔ m = [c] ∧ cs = c :: rest := by
  cases cs with
  | nil => simp [exactly, one]
  | cons c' cs =>
      simp only [exactly, one, beq_iff_eq]
      split
      · next h => subst h; simp [eq_comm]
      · next h => simp [h]

/-- A condition on what follows does not change what is found. -/
theorem followedBy_eq_some_iff {q : List Char → Bool} {cs : List Char}
    {found : List Char × List Char} :
    followedBy r q cs = some found ↔ r cs = some found ∧ q found.2 = true := by
  unfold followedBy
  rw [Option.filter_eq_some_iff]

/-- A keyword is found if the text starts with its letters, up to folding. -/
theorem word_eq_some_iff {ks cs m rest : List Char} :
    word ks cs = some (m, rest) ↔ cs = m ++ rest ∧ m.map foldCase = ks := by
  -- The recursion is on the keyword, and the text and what is found follow it letter by letter.
  induction ks generalizing cs m rest with
  | nil =>
      simp only [word, Option.some.injEq, Prod.mk.injEq, List.map_eq_nil_iff]
      constructor
      · rintro ⟨rfl, rfl⟩
        exact ⟨rfl, rfl⟩
      · rintro ⟨rfl, rfl⟩
        exact ⟨rfl, rfl⟩
  | cons k ks ih =>
      cases cs with
      | nil =>
          simp only [word, reduceCtorEq, false_iff]
          rintro ⟨hnil, hm⟩
          obtain ⟨rfl, -⟩ := List.append_eq_nil_iff.mp hnil.symm
          simp at hm
      | cons c cs =>
          simp only [word]
          split
          · next hc =>
              simp only [Option.map_eq_some_iff, Prod.mk.injEq, Prod.exists, ih]
              constructor
              · rintro ⟨m', rest', ⟨rfl, hm'⟩, rfl, rfl⟩
                simp [hc, hm']
              · intro h
                cases m with
                | nil => simp at h
                | cons c' m =>
                    simp only [List.cons_append, List.cons.injEq, List.map_cons] at h
                    obtain ⟨⟨rfl, rfl⟩, -, hm⟩ := h
                    exact ⟨m, rest, ⟨rfl, hm⟩, rfl, rfl⟩
          · next hc =>
              simp only [reduceCtorEq, false_iff]
              intro h
              cases m with
              | nil => simp at h
              | cons c' m =>
                  simp only [List.cons_append, List.cons.injEq, List.map_cons] at h
                  obtain ⟨⟨rfl, -⟩, hk, -⟩ := h
                  exact hc hk

/-- A word that is found is one of the list. -/
theorem exists_word_of_words {ws : List String} {cs : List Char}
    {found : List Char × List Char} (h : words ws cs = some found) :
    ∃ w ∈ ws, word w.toList cs = some found := by
  induction ws with
  | nil => contradiction
  | cons w ws ih =>
      rcases Option.or_eq_some_iff.mp h with hword | ⟨-, hwords⟩
      · exact ⟨w, List.mem_cons_self, hword⟩
      · obtain ⟨w', hw', hword⟩ := ih hwords
        exact ⟨w', List.mem_cons_of_mem w hw', hword⟩

/-! ### ASCII -/

/-- What holds of all ASCII characters can be checked one by one. -/
theorem forall_ascii {P : Char → Prop} (h : ∀ n < 128, P (Char.ofNat n)) :
    ∀ c : Char, c.toNat < 128 → P c := by
  intro c hc
  have hchar := h c.toNat hc
  rwa [Char.ofNat_toNat] at hchar

/-- Letters and digits are ASCII here, whatever Unicode calls a letter. -/
theorem ascii_of_isAlphanum {c : Char} (h : c.isAlphanum = true) : c.toNat < 128 := by
  have hranges : (decide (c.val ≥ 'A'.val ∧ c.val ≤ 'Z'.val) ||
      (c.val ≥ 'a'.val && c.val ≤ 'z'.val) || (c.val ≥ '0'.val && c.val ≤ '9'.val)) = true := h
  simp only [Bool.or_eq_true, Bool.and_eq_true, decide_eq_true_eq, UInt32.le_iff_toNat_le,
    ge_iff_le] at hranges
  have hval : c.toNat = c.val.toNat := rfl
  have hbounds : 'Z'.val.toNat = 90 ∧ 'z'.val.toNat = 122 ∧ '9'.val.toNat = 57 := by decide
  omega

/-! ### Strings -/

/-- A run of characters that ends at the first quote. -/
theorem takeWhile_ne_quote {body : List Char} (hbody : '"' ∉ body) (rest : List Char) :
    (body ++ '"' :: rest).takeWhile (· != '"') = body ∧
      (body ++ '"' :: rest).dropWhile (· != '"') = '"' :: rest := by
  induction body with
  | nil => simp
  | cons c body ih =>
      rw [List.mem_cons, not_or] at hbody
      obtain ⟨htake, hdrop⟩ := ih hbody.2
      have hc : (c != '"') = true := by simpa using Ne.symm hbody.1
      simp only [List.cons_append, List.takeWhile_cons, List.dropWhile_cons, hc, if_true, htake,
        hdrop, and_self]

/-- A string is a quote, characters other than a quote, and a quote. -/
theorem string_eq_some_iff {cs m rest : List Char} :
    string cs = some (m, rest) ↔
      ∃ body, '"' ∉ body ∧ m = '"' :: (body ++ ['"']) ∧ cs = m ++ rest := by
  constructor
  · intro h
    have hsplit := string_splits _ _ _ h
    obtain ⟨m₁, mid, m₂, hopen, hrest, rfl⟩ := andThen_eq_some_iff.mp h
    obtain ⟨body, mid', m₃, hbody, hclose, rfl⟩ := andThen_eq_some_iff.mp hrest
    obtain ⟨rfl, -⟩ := exactly_eq_some_iff.mp hopen
    obtain ⟨rfl, -⟩ := exactly_eq_some_iff.mp hclose
    refine ⟨body, ?_, rfl, hsplit.symm⟩
    -- The run in the middle stops at the first quote, so it holds none.
    rcases optional_eq_some_iff.mp hbody with hmany | ⟨-, hnone⟩
    · obtain ⟨-, rfl, -⟩ := many1_eq_some_iff.mp hmany
      intro hmem
      simpa using List.all_eq_true.mp List.all_takeWhile _ hmem
    · cases hnone
      simp
  · rintro ⟨body, hbody, rfl, rfl⟩
    obtain ⟨htake, hdrop⟩ := takeWhile_ne_quote hbody rest
    refine andThen_eq_some_iff.mpr ⟨['"'], body ++ '"' :: rest, body ++ ['"'],
      exactly_eq_some_iff.mpr ⟨rfl, by simp⟩, ?_, rfl⟩
    refine andThen_eq_some_iff.mpr ⟨body, '"' :: rest, ['"'], ?_,
      exactly_eq_some_iff.mpr ⟨rfl, rfl⟩, rfl⟩
    rw [optional_eq_some_iff]
    -- An empty string has no characters between its quotes, and `many1` wants one.
    by_cases hempty : body = []
    · subst hempty
      exact Or.inr ⟨by simp [many1], rfl⟩
    · exact Or.inl (many1_eq_some_iff.mpr ⟨hempty, htake.symm, hdrop.symm⟩)

/-! ### Rows that the first character rules out -/

variable {c : Char}

/-- A run does not start with a character outside of its class. -/
theorem many1_cons_eq_none (hc : p c = false) (cs : List Char) : many1 p (c :: cs) = none := by
  simp [many1, hc]

/-- A word does not start with another letter than its own. -/
theorem word_cons_eq_none {k : Char} (hc : foldCase c ≠ k) (ks cs : List Char) :
    word (k :: ks) (c :: cs) = none := by
  simp [word, hc]

/-- No keyword of a list is found if each of them starts with another letter. -/
theorem words_cons_eq_none {ws : List String}
    (hws : ∀ w ∈ ws, w.toList.head?.any (· != foldCase c) = true) (cs : List Char) :
    words ws (c :: cs) = none := by
  induction ws with
  | nil => rfl
  | cons w ws ih =>
      have hw := hws w List.mem_cons_self
      -- Neither the first keyword nor those after it.
      show ((word w.toList (c :: cs)).or (words ws (c :: cs))) = none
      rw [ih fun w' hw' => hws w' (List.mem_cons_of_mem w hw')]
      cases hlist : w.toList with
      | nil => simp [hlist] at hw
      | cons k ks =>
          simp only [hlist, List.head?_cons, Option.any_some, bne_iff_ne, ne_eq] at hw
          rw [word_cons_eq_none (Ne.symm hw)]
          rfl

/-- A number starts with a digit. -/
theorem number_cons_eq_none (hc : c.isDigit = false) (cs : List Char) :
    number (c :: cs) = none :=
  andThen_eq_none (many1_cons_eq_none hc cs)

/-- A single character is not another one. -/
theorem exactly_cons_eq_none {c' : Char} (hc : c ≠ c') (cs : List Char) :
    exactly c' (c :: cs) = none := by
  simp [exactly, one, hc]

/-- A string starts with a quote. -/
theorem string_cons_eq_none (hc : c ≠ '"') (cs : List Char) : string (c :: cs) = none :=
  andThen_eq_none (exactly_cons_eq_none hc cs)

/-- A truth value starts with a `t` or an `f`. -/
theorem boolean_cons_eq_none (ht : foldCase c ≠ 't') (hf : foldCase c ≠ 'f') (cs : List Char) :
    boolean (c :: cs) = none := by
  unfold boolean followedBy
  rw [words_cons_eq_none (by
    intro w hw
    simp only [List.mem_cons, List.not_mem_nil, or_false] at hw
    rcases hw with rfl | rfl
    · simpa [bne_iff_ne] using Ne.symm ht
    · simpa [bne_iff_ne] using Ne.symm hf)]
  rfl

/-- The keyword `null` starts with an `n`. -/
theorem null_cons_eq_none (hc : foldCase c ≠ 'n') (cs : List Char) : null (c :: cs) = none := by
  unfold null followedBy
  rw [words_cons_eq_none (by
    intro w hw
    obtain rfl := List.mem_singleton.mp hw
    simpa [bne_iff_ne] using Ne.symm hc)]
  rfl

/-- So does `not`. -/
theorem negation_cons_eq_none (hc : foldCase c ≠ 'n') (cs : List Char) :
    negation (c :: cs) = none := by
  refine andThen_eq_none (words_cons_eq_none ?_ cs)
  intro w hw
  obtain rfl := List.mem_singleton.mp hw
  simpa [bne_iff_ne] using Ne.symm hc

/-- A logical operator starts with a blank. -/
theorem logicalOperator_cons_eq_none (hc : isBlank c = false) (cs : List Char) :
    logicalOperator (c :: cs) = none :=
  andThen_eq_none (many1_cons_eq_none hc cs)

/-- So does a comparison operator. -/
theorem comparisonOperator_cons_eq_none (hc : isBlank c = false) (cs : List Char) :
    comparisonOperator (c :: cs) = none :=
  andThen_eq_none (by simp [one, hc])

/-- A name starts with a character of a schema or of a name. -/
theorem name_cons_eq_none (hschema : isSchemaChar c = false) (hname : isNameChar c = false)
    (cs : List Char) : name (c :: cs) = none := by
  unfold name
  -- Without a qualifier the name itself has to start here.
  have hopt : optional (qualifier false) (c :: cs) = some ([], c :: cs) := by
    rw [optional_eq_some_iff]
    exact Or.inr ⟨by simp [qualifier, hschema], rfl⟩
  unfold andThen
  rw [hopt]
  simp [many1_cons_eq_none hname]

/-- A sub-attribute starts with a dot. -/
theorem subAttribute_cons_eq_none (hc : c ≠ '.') (cs : List Char) :
    subAttribute (c :: cs) = none := by
  unfold subAttribute followedBy dottedName
  rw [andThen_eq_none (exactly_cons_eq_none hc cs)]
  rfl

/-! ### The recogniser of a kind -/

/-- The recogniser that makes tokens of a kind. -/
def recogniserOf : TokenKind → Recogniser
  | .number => number
  | .string => string
  | .boolean => boolean
  | .null => null
  | .parenOpen => exactly '('
  | .parenClose => exactly ')'
  | .bracketOpen => exactly '['
  | .bracketClose => exactly ']'
  | .negation => negation
  | .logicalOperator => logicalOperator
  | .comparisonOperator => comparisonOperator
  | .name => name
  | .subAttribute => subAttribute

/-- The kinds of tokens that an expression can have. -/
def kinds : Mode → List TokenKind
  | .filter => TokenKind.all.dropLast
  | .path => TokenKind.all

/-- The table has one row for each kind, in the order in which `TokenKind.all` lists them. -/
theorem table_eq_map (mode : Mode) :
    table mode = (kinds mode).map fun kind => (kind, recogniserOf kind) := by
  cases mode <;> rfl

/-- A recogniser that never finds the empty text. -/
def Productive (r : Recogniser) : Prop :=
  ∀ (cs m rest : List Char), r cs = some (m, rest) → m ≠ []

/-- A run has one character at least. -/
theorem many1_productive : Productive (many1 p) := by
  intro cs m rest h
  exact (many1_eq_some_iff.mp h).1

/-- A single character is one. -/
theorem one_productive : Productive (one p) := by
  intro cs m rest h
  cases cs with
  | nil => simp [one] at h
  | cons c cs =>
      simp only [one] at h
      split at h
      · cases h
        simp
      · contradiction

/-- Two recognisers in a row find something if the first one does. -/
theorem andThen_productive (hr : Productive r) : Productive (andThen r s) := by
  intro cs m rest h
  obtain ⟨m₁, mid, m₂, hfirst, -, rfl⟩ := andThen_eq_some_iff.mp h
  simp [hr _ _ _ hfirst]

/-- A word has a first letter. -/
theorem word_productive (k : Char) (ks : List Char) : Productive (word (k :: ks)) := by
  intro cs m rest h
  cases cs with
  | nil => simp [word] at h
  | cons c cs =>
      simp only [word] at h
      split at h
      · obtain ⟨found, -, hfound⟩ := Option.map_eq_some_iff.mp h
        cases hfound
        simp
      · contradiction

/-- A list of words without the empty one finds something. -/
theorem words_productive {ws : List String} (hws : ∀ w ∈ ws, w.toList ≠ []) :
    Productive (words ws) := by
  intro cs m rest h
  induction ws with
  | nil => simp [words] at h
  | cons w ws ih =>
      rcases Option.or_eq_some_iff.mp h with h | ⟨-, h⟩
      · obtain ⟨k, ks, hw⟩ := List.exists_cons_of_ne_nil (hws w List.mem_cons_self)
        rw [hw] at h
        exact word_productive k ks _ _ _ h
      · exact ih (fun w' hw' => hws w' (List.mem_cons_of_mem w hw')) h

/-- A condition on what follows takes nothing away. -/
theorem followedBy_productive {q : List Char → Bool} (hr : Productive r) :
    Productive (followedBy r q) := by
  intro cs m rest h
  exact hr _ _ _ (followedBy_eq_some_iff.mp h).1

/-- No row of the table finds the empty text, so every token has a character. -/
theorem recogniserOf_productive (kind : TokenKind) : Productive (recogniserOf kind) := by
  cases kind with
  | number => exact andThen_productive many1_productive
  | string => exact andThen_productive one_productive
  | boolean => exact followedBy_productive (words_productive (by decide))
  | null => exact followedBy_productive (words_productive (by decide))
  | parenOpen => exact one_productive
  | parenClose => exact one_productive
  | bracketOpen => exact one_productive
  | bracketClose => exact one_productive
  | negation => exact andThen_productive (words_productive (by decide))
  | logicalOperator => exact andThen_productive many1_productive
  | comparisonOperator => exact andThen_productive one_productive
  | name =>
      intro cs m rest h
      -- The qualifier may be missing, the name may not.
      obtain ⟨m₁, mid, m₂, -, hname, rfl⟩ := andThen_eq_some_iff.mp h
      simp [andThen_productive many1_productive _ _ _ hname]
  | subAttribute => exact followedBy_productive (andThen_productive one_productive)

end Recogniser

open Recogniser

/-! ### The first token of a text -/

/-- The token of a kind at the front of a text, if there is one. -/
def lexemeOf? (cs : List Char) (kind : TokenKind) : Option (TokenKind × List Char × List Char) :=
  (recogniserOf kind cs).map fun found => (kind, found)

/-- The first kind that has a token at the front of the text gives the token. -/
theorem lexeme?_eq_findSome? (mode : Mode) (cs : List Char) :
    lexeme? mode cs = (kinds mode).findSome? (lexemeOf? cs) := by
  unfold lexeme?
  rw [table_eq_map, List.findSome?_map]
  congr 1
  funext kind
  unfold lexemeOf?
  simp only [Function.comp_apply]
  -- The test for an empty token never decides, since no recogniser finds one.
  cases hfound : recogniserOf kind cs with
  | none => rfl
  | some found => exact if_neg (recogniserOf_productive kind _ _ _ hfound)

/-- The kinds that are tried before a kind. -/
def kindsBefore (kind : TokenKind) : List TokenKind :=
  TokenKind.all.takeWhile (· ≠ kind)

/-- Among some kinds, the first one that has a token at the front of the text. -/
theorem findSome?_lexemeOf?_eq_some_iff {ks : List TokenKind} {cs m rest : List Char}
    {kind : TokenKind} :
    ks.findSome? (lexemeOf? cs) = some (kind, m, rest) ↔
      kind ∈ ks ∧ recogniserOf kind cs = some (m, rest) ∧
        ∀ k ∈ ks.takeWhile (· ≠ kind), recogniserOf k cs = none := by
  -- Either the first kind has a token, or it is one of those that come before and have none.
  induction ks with
  | nil => simp
  | cons k ks ih =>
      rw [List.findSome?_cons]
      cases hk : recogniserOf k cs with
      | none =>
          rw [show lexemeOf? cs k = none by simp [lexemeOf?, hk]]
          simp only [ih]
          constructor
          · rintro ⟨hmem, hkind, hbefore⟩
            have hne : k ≠ kind := by rintro rfl; rw [hk] at hkind; contradiction
            refine ⟨List.mem_cons_of_mem k hmem, hkind, ?_⟩
            rw [List.takeWhile_cons, if_pos (by simpa using hne)]
            exact List.forall_mem_cons.mpr ⟨hk, hbefore⟩
          · rintro ⟨hmem, hkind, hbefore⟩
            have hne : k ≠ kind := by rintro rfl; rw [hk] at hkind; contradiction
            rw [List.takeWhile_cons, if_pos (by simpa using hne)] at hbefore
            exact ⟨(List.mem_cons.mp hmem).resolve_left (Ne.symm hne), hkind,
              (List.forall_mem_cons.mp hbefore).2⟩
      | some found =>
          rw [show lexemeOf? cs k = some (k, found) by simp [lexemeOf?, hk]]
          simp only [Option.some.injEq, Prod.mk.injEq]
          constructor
          · rintro ⟨rfl, rfl⟩
            exact ⟨List.mem_cons_self, hk, by simp⟩
          · rintro ⟨-, hkind, hbefore⟩
            by_cases hne : k = kind
            · subst hne
              rw [hk] at hkind
              exact ⟨rfl, Option.some.inj hkind⟩
            · rw [List.takeWhile_cons, if_pos (by simpa using hne)] at hbefore
              rw [(List.forall_mem_cons.mp hbefore).1] at hk
              contradiction

/-- The first token of a text is the one whose recogniser is the first to succeed. -/
theorem lexeme?_eq_some_iff {mode : Mode} {cs m rest : List Char} {kind : TokenKind} :
    lexeme? mode cs = some (kind, m, rest) ↔
      kind ∈ kinds mode ∧ recogniserOf kind cs = some (m, rest) ∧
        ∀ k ∈ kindsBefore kind, recogniserOf k cs = none := by
  -- The sub-attribute is the last kind, so what comes before a kind does not depend on the mode.
  have hbefore : ∀ mode, kind ∈ kinds mode →
      (kinds mode).takeWhile (· ≠ kind) = kindsBefore kind := by
    intro mode hmem
    cases mode with
    | path => rfl
    | filter => cases kind <;> rfl
  rw [lexeme?_eq_findSome?, findSome?_lexemeOf?_eq_some_iff]
  constructor
  · rintro ⟨hmem, hkind, h⟩
    rw [hbefore mode hmem] at h
    exact ⟨hmem, hkind, h⟩
  · rintro ⟨hmem, hkind, h⟩
    rw [← hbefore mode hmem] at h
    exact ⟨hmem, hkind, h⟩

/-- There is no token at the end of a text. -/
theorem ne_nil_of_lexeme? {mode : Mode} {cs m rest : List Char} {kind : TokenKind}
    (h : lexeme? mode cs = some (kind, m, rest)) : cs ≠ [] := by
  rintro rfl
  have hlt := length_lt_of_lexeme? h
  simp at hlt

/-- A token of a kind is what the recogniser of that kind finds. -/
theorem recogniserOf_of_lexeme? {mode : Mode} {cs m rest : List Char} {kind : TokenKind}
    (h : lexeme? mode cs = some (kind, m, rest)) : recogniserOf kind cs = some (m, rest) :=
  (lexeme?_eq_some_iff.mp h).2.1

/-- The modes differ in the sub-attribute alone: any other token is one in both. -/
theorem lexeme?_mode {mode mode' : Mode} {cs m rest : List Char} {kind : TokenKind}
    (hkind : kind ≠ .subAttribute) (h : lexeme? mode cs = some (kind, m, rest)) :
    lexeme? mode' cs = some (kind, m, rest) := by
  obtain ⟨-, h⟩ := lexeme?_eq_some_iff.mp h
  refine lexeme?_eq_some_iff.mpr ⟨?_, h⟩
  cases mode' <;> cases kind <;> first | contradiction | decide

/-- A filter has no sub-attribute. -/
theorem ne_subAttribute_of_lexeme? {cs m rest : List Char} {kind : TokenKind}
    (h : lexeme? .filter cs = some (kind, m, rest)) : kind ≠ .subAttribute := by
  rintro rfl
  exact absurd (lexeme?_eq_some_iff.mp h).1 (by decide)

/-! ### Characters that decide -/

/-- Characters that decide by themselves which token they start. -/
def decisive : List (TokenKind × Char) :=
  [(.parenOpen, '('), (.parenClose, ')'), (.bracketOpen, '['), (.bracketClose, ']'),
   (.string, '"')]

/-- What starts with a decisive character is no token of another kind. -/
theorem recogniserOf_eq_none_of_decisive {kind k : TokenKind} {c : Char}
    (h : (kind, c) ∈ decisive) (hk : k ≠ kind) (cs : List Char) :
    recogniserOf k (c :: cs) = none := by
  have hclasses : ∀ entry ∈ decisive, entry.2.isDigit = false ∧ entry.2 ≠ '.' ∧
      foldCase entry.2 ≠ 't' ∧ foldCase entry.2 ≠ 'f' ∧ foldCase entry.2 ≠ 'n' ∧
      isBlank entry.2 = false ∧ isSchemaChar entry.2 = false ∧ isNameChar entry.2 = false := by
    decide
  obtain ⟨hdigit, hdot, ht, hf, hn, hblank, hschema, hname⟩ := hclasses _ h
  -- The other rows fail at a class that the character is not in.
  -- A row for a single character fails because that character would give another kind.
  have hother : ∀ c', (k, c') ∈ decisive → c ≠ c' := by
    rintro c' h' rfl
    have hunique : ∀ e ∈ decisive, ∀ e' ∈ decisive, e.2 = e'.2 → e.1 = e'.1 := by decide
    exact hk (hunique _ h' _ h rfl)
  cases k with
  | number => exact number_cons_eq_none hdigit cs
  | string => exact string_cons_eq_none (hother '"' (by decide)) cs
  | boolean => exact boolean_cons_eq_none ht hf cs
  | null => exact null_cons_eq_none hn cs
  | parenOpen => exact exactly_cons_eq_none (hother '(' (by decide)) cs
  | parenClose => exact exactly_cons_eq_none (hother ')' (by decide)) cs
  | bracketOpen => exact exactly_cons_eq_none (hother '[' (by decide)) cs
  | bracketClose => exact exactly_cons_eq_none (hother ']' (by decide)) cs
  | negation => exact negation_cons_eq_none hn cs
  | logicalOperator => exact logicalOperator_cons_eq_none hblank cs
  | comparisonOperator => exact comparisonOperator_cons_eq_none hblank cs
  | name => exact name_cons_eq_none hschema hname cs
  | subAttribute => exact subAttribute_cons_eq_none hdot cs

/-- Behind a decisive character stands a token of its kind or none at all. -/
theorem lexeme?_of_decisive (mode : Mode) {kind : TokenKind} {c : Char}
    (h : (kind, c) ∈ decisive) {cs m rest : List Char} {kind' : TokenKind} :
    lexeme? mode (c :: cs) = some (kind', m, rest) ↔
      kind' = kind ∧ recogniserOf kind (c :: cs) = some (m, rest) := by
  have hkinds : ∀ mode, ∀ entry ∈ decisive, entry.1 ∈ kinds mode := by
    intro mode
    cases mode <;> decide
  rw [lexeme?_eq_some_iff]
  constructor
  · rintro ⟨-, hfound, -⟩
    by_cases hkind : kind' = kind
    · subst hkind
      exact ⟨rfl, hfound⟩
    · rw [recogniserOf_eq_none_of_decisive h hkind] at hfound
      contradiction
  · rintro ⟨rfl, hfound⟩
    refine ⟨hkinds mode _ h, hfound, fun k hk => recogniserOf_eq_none_of_decisive h ?_ cs⟩
    simpa using List.all_eq_true.mp List.all_takeWhile _ hk

/-- All decisive characters but the quote, which is the last, are tokens of their own. -/
theorem recogniserOf_bracket {kind : TokenKind} {c : Char} (h : (kind, c) ∈ decisive.dropLast) :
    recogniserOf kind = exactly c := by
  have hrows : ∀ entry ∈ decisive.dropLast, recogniserOf entry.1 = exactly entry.2 := by
    simp only [decisive, List.dropLast, List.forall_mem_cons, List.not_mem_nil, false_implies,
      implies_true, and_true]
    exact ⟨rfl, rfl, rfl, rfl⟩
  exact hrows _ h

/-- A parenthesis or bracket is a token by itself. -/
theorem lexeme?_bracket (mode : Mode) {kind : TokenKind} {c : Char}
    (h : (kind, c) ∈ decisive.dropLast) (cs : List Char) :
    lexeme? mode (c :: cs) = some (kind, [c], cs) := by
  refine (lexeme?_of_decisive mode (List.dropLast_subset _ h)).mpr ⟨rfl, ?_⟩
  rw [recogniserOf_bracket h]
  exact exactly_eq_some_iff.mpr ⟨rfl, rfl⟩

end Scim
