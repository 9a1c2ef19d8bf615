import Mathlib.Data.List.Forall2
import Scim.Proofs.Token.Names
import Scim.Proofs.Token.Spelling
import Scim.Proofs.Token.SubAttribute

/-!
# `Scim.Proofs.Token.Respelled`: scanning a text that is spelled differently

Spelling a token differently changes what the token in front of it can see. The keywords are dealt
with in `Scim.Proofs.Token.Spelling`. Of the other tokens:

* a string and a bracket see nothing of what follows;
* a number sees whether a digit follows, possibly behind a point (`number_of_resembles`);
* a name is the hard case. With a colon further on, all that comes before it belongs to the name.

But there is no such colon behind a name. If there were, the name would not end where it does: what
stands in front of the colon would be its schema (`name_eq_none_of_name`). So two names never stand
next to each other, and a name is followed by a delimiter unless it is a sub-attribute that follows
(`delimited_of_name`). Behind another delimiter that looks the same, the name is found again
(`lexeme?_name_of_resembles`).

The results:

* `lexeme?_respelled` is the step for one token: it is found again if it is spelled differently and
  what follows it resembles what followed it before.
* `Scans.respelled` goes on with it to the end of the text. Each token may be spelled differently,
  and the offsets move accordingly.
-/

set_option autoImplicit false

namespace Scim

open Text Recogniser

/-! ### Numbers -/

/-- There is no run where the first character is not of its class. -/
theorem many1_eq_none_iff {p : Char → Bool} {cs : List Char} :
    many1 p cs = none ↔ ∀ c ∈ cs.head?, p c = false := by
  cases cs with
  | nil => simp [many1]
  | cons c cs => cases hc : p c <;> simp [many1, hc]

/-- The run of a class ends at the same place. -/
theorem many1_of_resembles {p : Char → Bool} (hp : ∀ c c', Alike c c' → p c' = p c)
    {m rest rest' : List Char} (h : many1 p (m ++ rest) = some (m, rest))
    (hrest : Resembles rest rest') : many1 p (m ++ rest') = some (m, rest') := by
  obtain ⟨-, hne, hm, hend⟩ := many1_eq_some_iff_run.mp h
  exact many1_eq_some_iff_run.mpr ⟨rfl, hne, hm, hrest.forall_head hp hend⟩

/-- A point and a digit that do not follow do not follow in a text that looks the same either. -/
theorem fraction_eq_none_of_resembles {rest rest' : List Char}
    (h : andThen (exactly '.') (many1 Char.isDigit) rest = none) (hrest : Resembles rest rest') :
    andThen (exactly '.') (many1 Char.isDigit) rest' = none := by
  cases hrest with
  | nil => exact h
  | @cons c c' cs cs' halike hdot =>
      by_cases hc' : c' = '.'
      · subst hc'
        obtain rfl := halike.eq_dot
        -- Behind the point there is no digit in either text.
        have hpoint : ∀ cs, exactly '.' ('.' :: cs) = some (['.'], cs) := fun cs =>
          exactly_eq_some_iff.mpr ⟨rfl, rfl⟩
        unfold andThen at h ⊢
        rw [hpoint] at h ⊢
        rw [Option.map_eq_none_iff, many1_eq_none_iff] at h ⊢
        rw [hdot rfl]
        exact h
      · exact andThen_eq_none (exactly_cons_eq_none hc' cs')

/-- A number is found again in front of a text that looks the same. -/
theorem number_of_resembles {m rest rest' : List Char} (h : number (m ++ rest) = some (m, rest))
    (hrest : Resembles rest rest') : number (m ++ rest') = some (m, rest') := by
  have hdigit : ∀ c c', Alike c c' → c'.isDigit = c.isDigit := fun _ _ halike => halike.isDigit_eq
  obtain ⟨whole, mid, point, hwhole, hpoint, rfl⟩ := andThen_eq_some_iff.mp h
  rcases optional_eq_some_iff.mp hpoint with hpoint | ⟨hnone, hnil⟩
  · obtain ⟨dot, mid', ds, hdot, hds, rfl⟩ := andThen_eq_some_iff.mp hpoint
    obtain ⟨rfl, rfl⟩ := exactly_eq_some_iff.mp hdot
    have hmid' := many1_splits _ _ _ _ hds
    subst hmid'
    obtain ⟨-, hne, hall, -⟩ := many1_eq_some_iff_run.mp hwhole
    have hwhole' : many1 Char.isDigit (whole ++ ['.'] ++ ds ++ rest')
        = some (whole, '.' :: (ds ++ rest')) :=
      many1_eq_some_iff_run.mpr ⟨by simp, hne, hall, by simp⟩
    have hpoint' : andThen (exactly '.') (many1 Char.isDigit) ('.' :: (ds ++ rest'))
        = some (['.'] ++ ds, rest') :=
      andThen_eq_some_iff.mpr ⟨['.'], ds ++ rest', ds, exactly_eq_some_iff.mpr ⟨rfl, rfl⟩,
        many1_of_resembles hdigit hds hrest, rfl⟩
    refine andThen_eq_some_iff.mpr ⟨whole, '.' :: (ds ++ rest'), ['.'] ++ ds, ?_, ?_, rfl⟩
    · simpa using hwhole'
    · exact optional_eq_some_iff.mpr (.inl hpoint')
  · cases hnil
    rw [List.append_nil] at hwhole ⊢
    refine andThen_eq_some_iff.mpr ⟨whole, rest', [], many1_of_resembles hdigit hwhole hrest, ?_,
      by simp⟩
    exact optional_eq_some_iff.mpr (.inr ⟨fraction_eq_none_of_resembles hnone hrest, rfl⟩)

/-! ### Names -/

/-- A character that cannot stand in a schema ends every name. -/
theorem endsName_of_not_schema {d : Char} (h : isSchemaChar d = false) : EndsName d := by
  have hcases : isBlank d = true ∨ d = '"' ∨ d ∈ brackets := by
    simp only [isSchemaChar, Bool.and_eq_false_iff, Bool.not_eq_false', List.contains_cons,
      Bool.or_eq_true, beq_iff_eq] at h
    rcases h with h | h | h | h | h | h | h <;> simp_all [brackets]
  rcases hcases with hblank | rfl | hbracket
  · exact endsName_of_blank hblank
  · constructor <;> decide +kernel
  · exact endsName_of_bracket hbracket

/-- A character of a name may stand in a schema. -/
theorem schema_of_name {c : Char} (h : isNameChar c = true) : isSchemaChar c = true := by
  rw [← Bool.not_eq_false]
  intro hschema
  rw [(endsName_of_not_schema hschema).not_name] at h
  contradiction

/-- A qualifier is made of characters that may stand in a schema, the colons among them. -/
theorem schema_of_qualifier {started : Bool} {cs m rest : List Char}
    (h : qualifier started cs = some (m, rest)) : ∀ c ∈ m, isSchemaChar c = true := by
  induction cs generalizing started m with
  | nil => simp [qualifier] at h
  | cons c cs ih =>
      rw [qualifier] at h
      split at h
      · next hc =>
          split at h
          · next hrec =>
              cases h
              exact List.forall_mem_cons.mpr ⟨hc, ih hrec⟩
          · split at h
            · cases h
              simpa using hc
            · contradiction
      · contradiction

/-- A name is a qualifier, if there is one, and a dotted part. No character of a name follows. -/
theorem name_dotted {cs m rest : List Char} (h : name cs = some (m, rest)) :
    ∃ qualified mid dotted, optional (qualifier false) cs = some (qualified, mid) ∧
      m = qualified ++ dotted ∧ dotted ≠ [] ∧ (∀ c ∈ dotted, isSchemaChar c = true) ∧
      ∀ c ∈ rest.head?, isNameChar c = false := by
  obtain ⟨qualified, mid, dotted, hqualifier, hdotted, rfl⟩ := andThen_eq_some_iff.mp h
  obtain ⟨first, mid', inner, hfirst, hinner, rfl⟩ := andThen_eq_some_iff.mp hdotted
  obtain ⟨-, hne, hall, hend⟩ := many1_eq_some_iff_run.mp hfirst
  refine ⟨qualified, mid, first ++ inner, hqualifier, rfl, by simp [hne], ?_⟩
  rcases optional_eq_some_iff.mp hinner with hinner | ⟨-, hnone⟩
  · obtain ⟨point, mid'', second, hpoint, hsecond, rfl⟩ := andThen_eq_some_iff.mp hinner
    obtain ⟨rfl, -⟩ := exactly_eq_some_iff.mp hpoint
    obtain ⟨-, -, hall', hend'⟩ := many1_eq_some_iff_run.mp hsecond
    refine ⟨?_, hend'⟩
    intro c hc
    simp only [List.mem_append, List.mem_singleton] at hc
    rcases hc with hc | rfl | hc
    · exact schema_of_name (hall c hc)
    · decide
    · exact schema_of_name (hall' c hc)
  · cases hnone
    refine ⟨?_, hend⟩
    intro c hc
    exact schema_of_name (hall c (by simpa using hc))

/-- So is a name. -/
theorem schema_of_mem_name {cs m rest : List Char} (h : name cs = some (m, rest)) :
    ∀ c ∈ m, isSchemaChar c = true := by
  obtain ⟨qualified, mid, dotted, hqualifier, rfl, -, hdotted, -⟩ := name_dotted h
  have hqualified : ∀ c ∈ qualified, isSchemaChar c = true := by
    rcases optional_eq_some_iff.mp hqualifier with hqualifier | ⟨-, hnone⟩
    · exact schema_of_qualifier hqualifier
    · cases hnone
      simp
  exact List.forall_mem_append.mpr ⟨hqualified, hdotted⟩

/-- A name that starts with another character than that of a name has a qualifier. -/
theorem exists_qualifier_of_name {c : Char} {cs m rest : List Char}
    (h : name (c :: cs) = some (m, rest)) (hc : isNameChar c = false) :
    ∃ found, qualifier false (c :: cs) = some found := by
  obtain ⟨qualified, mid, dotted, hqualifier, hdotted, -⟩ := andThen_eq_some_iff.mp h
  rcases optional_eq_some_iff.mp hqualifier with hqualifier | ⟨-, hnone⟩
  · exact ⟨_, hqualifier⟩
  · cases hnone
    rw [andThen_eq_none (many1_cons_eq_none hc cs)] at hdotted
    contradiction

/-- A character in front of a qualifier becomes a part of it. -/
theorem qualifier_cons {c : Char} (hc : isSchemaChar c = true) {cs q rest : List Char}
    (h : qualifier true cs = some (q, rest)) (started : Bool) :
    qualifier started (c :: cs) = some (c :: q, rest) := by
  simp [qualifier, hc, h]

/-- So does every character of a schema in front of it. -/
theorem qualifier_append {m : List Char} (hm : ∀ c ∈ m, isSchemaChar c = true)
    {cs q rest : List Char} (h : qualifier true cs = some (q, rest)) :
    qualifier true (m ++ cs) = some (m ++ q, rest) := by
  induction m with
  | nil => exact h
  | cons c m ih =>
      rw [List.forall_mem_cons] at hm
      exact qualifier_cons hm.1 (ih hm.2) true

/-- What is a qualifier at the start of a name is one further on. -/
theorem qualifier_true_of_false {cs : List Char} {found : List Char × List Char}
    (h : qualifier false cs = some found) : qualifier true cs = some found := by
  cases cs with
  | nil => simp [qualifier] at h
  | cons c cs =>
      rw [qualifier] at h ⊢
      split at h
      · next hc =>
          rw [if_pos hc]
          split at h
          · exact h
          · simp at h
      · contradiction

/-- There are no two names next to each other: they would be one name, the first part of which is in
the schema. -/
theorem name_eq_none_of_name {m rest : List Char} (h : name (m ++ rest) = some (m, rest)) :
    name rest = none := by
  rw [← Option.not_isSome_iff_eq_none, Option.isSome_iff_exists]
  rintro ⟨⟨m', rest'⟩, hnext⟩
  have hschema := schema_of_mem_name h
  have hne := recogniserOf_productive .name _ _ _ h
  obtain ⟨c, m, rfl⟩ := List.exists_cons_of_ne_nil hne
  obtain ⟨qualified, mid, dotted, hqualifier, hm, hdotted, -, hend⟩ := name_dotted h
  obtain ⟨d, rest, rfl⟩ : ∃ d cs, rest = d :: cs := by
    cases rest with
    | nil => cases hnext
    | cons d cs => exact ⟨d, cs, rfl⟩
  obtain ⟨⟨q, after⟩, hq⟩ := exists_qualifier_of_name hnext (hend d rfl)
  -- The qualifier of the second name would make the one of the first name longer than the name.
  rw [List.forall_mem_cons] at hschema
  have hlong := qualifier_cons hschema.1
    (qualifier_append hschema.2 (qualifier_true_of_false hq)) false
  rw [Recogniser.optional, List.cons_append, hlong] at hqualifier
  cases hqualifier
  have hlength := congrArg List.length hm
  have hpos := List.length_pos_iff.mpr hdotted
  simp only [List.length_append, List.length_cons] at hlength
  omega

/-- A character of a schema that is none of a name starts a name or a sub-attribute. -/
theorem recogniserOf_eq_none_of_schema {c : Char} (hschema : isSchemaChar c = true)
    (hname : isNameChar c = false) {k : TokenKind} (hk : k ≠ .name ∧ k ≠ .subAttribute)
    (cs : List Char) : recogniserOf k (c :: cs) = none := by
  have hother : ∀ c', isSchemaChar c' = false → c ≠ c' := by
    rintro c' hc' rfl
    rw [hschema] at hc'
    contradiction
  have hletter : ∀ c', c'.isLower = true → foldCase c ≠ c' := by
    rintro c' hc' rfl
    simp [isNameChar, hc'] at hname
  have hdigit : c.isDigit = false := by
    rw [← Bool.not_eq_true]
    intro hdigit
    have halphanum : c.isAlphanum = true := by simp [Char.isAlphanum, hdigit]
    rw [isNameChar_of_isAlphanum (.inl halphanum)] at hname
    contradiction
  have hblank : isBlank c = false := by
    simp only [isSchemaChar, Bool.and_eq_true, Bool.not_eq_true'] at hschema
    exact hschema.1
  cases k with
  | number => exact number_cons_eq_none hdigit cs
  | string => exact string_cons_eq_none (hother '"' (by decide)) cs
  | boolean =>
      exact boolean_cons_eq_none (hletter 't' (by decide)) (hletter 'f' (by decide)) cs
  | null => exact null_cons_eq_none (hletter 'n' (by decide)) cs
  | parenOpen => exact exactly_cons_eq_none (hother '(' (by decide)) cs
  | parenClose => exact exactly_cons_eq_none (hother ')' (by decide)) cs
  | bracketOpen => exact exactly_cons_eq_none (hother '[' (by decide)) cs
  | bracketClose => exact exactly_cons_eq_none (hother ']' (by decide)) cs
  | negation => exact negation_cons_eq_none (hletter 'n' (by decide)) cs
  | logicalOperator => exact logicalOperator_cons_eq_none hblank cs
  | comparisonOperator => exact comparisonOperator_cons_eq_none hblank cs
  | name => exact absurd rfl hk.1
  | subAttribute => exact absurd rfl hk.2

/-- Behind a name there is a delimiter, or a sub-attribute at the end. -/
theorem delimited_of_name {mode mode' : Mode} {m rest m' rest' : List Char} {kind : TokenKind}
    (h : lexeme? mode (m ++ rest) = some (.name, m, rest))
    (hnext : lexeme? mode' rest = some (kind, m', rest')) (hkind : kind ≠ .subAttribute) :
    Delimited rest := by
  have hfound : name (m ++ rest) = some (m, rest) := recogniserOf_of_lexeme? h
  have hfound' := recogniserOf_of_lexeme? hnext
  obtain ⟨-, -, -, -, -, -, -, hend⟩ := name_dotted hfound
  intro c hc
  apply endsName_of_not_schema
  rw [← Bool.not_eq_true]
  intro hschema
  cases rest with
  | nil => cases hc
  | cons d cs =>
      obtain rfl : d = c := by simpa using hc
      -- A character of a schema can only start a name there, and no name stands right behind
      -- another.
      by_cases hname : kind = .name
      · rw [hname, show recogniserOf .name = name from rfl, name_eq_none_of_name hfound] at hfound'
        contradiction
      · rw [recogniserOf_eq_none_of_schema hschema (hend d rfl) ⟨hname, hkind⟩] at hfound'
        contradiction

/-- A negation ends at every delimiter but a blank. -/
theorem negation_stopsAt_of_not_blank {d : Char} (hd : EndsName d) (hblank : isBlank d = false) :
    StopsAt negation d := by
  refine andThen_stopsAt (words_stopsAt ?_) (many1_stopsAt hblank)
  intro w hw hmem
  obtain rfl := List.mem_singleton.mp hw
  have hletters : "not".toList.all Char.isLower = true := by decide
  have hlower := List.all_eq_true.mp hletters _ hmem
  have hname := hd.not_name
  simp [isNameChar, hlower] at hname

/-- In front of a delimiter that is alike, what was no negation is none. -/
theorem negation_eq_none_of_alike {m more more' : List Char} {d d' : Char} (hd : EndsName d)
    (halike : Alike d d') (h : negation (m ++ d :: more) = none) :
    negation (m ++ d' :: more') = none := by
  have hm : negation m = none := negation_eq_none_of_append h
  cases hblank : isBlank d with
  | true =>
      have hblank' : isBlank d' = true := by rw [halike.isBlank_eq, hblank]
      rw [negation_append_blank hm hblank']
      exact (negation_append_blank hm hblank more).mp h
  | false =>
      have hblank' : isBlank d' = false := by rw [halike.isBlank_eq, hblank]
      rw [negation_stopsAt_of_not_blank (halike.endsName hd) hblank', hm]
      rfl

/-- A name is found again in front of another delimiter that looks the same. -/
theorem lexeme?_name_of_resembles {mode : Mode} {m rest rest' : List Char}
    (h : lexeme? mode (m ++ rest) = some (.name, m, rest)) (hdelimited : Delimited rest)
    (hrest : Resembles rest rest') :
    lexeme? mode (m ++ rest') = some (.name, m, rest') := by
  have hkind : TokenKind.name ≠ .subAttribute := by decide
  cases hrest with
  | nil => exact h
  | @cons d d' more more' halike hdot =>
      have hd := hdelimited d rfl
      have hfilter : lexeme? .filter (m ++ d :: more) = some (.name, m, d :: more) :=
        lexeme?_mode hkind h
      have hnegation := (lexeme?_eq_some_iff.mp h).2.2 .negation (by decide)
      have hname := IsName.of_lexeme? hd hfilter
      exact lexeme?_mode hkind (hname.lexeme?_append (halike.endsName hd)
        (negation_eq_none_of_alike hd halike hnegation))

/-! ### One token after the other -/

/-- A text that squeezes to the same as another one starts with a character that is alike. -/
theorem exists_alike_of_squeezed {c : Char} {m m' : List Char}
    (h : squeezed m' = squeezed (c :: m)) : ∃ c' x, m' = c' :: x ∧ Alike c c' := by
  cases m' with
  | nil => exact absurd (squeezed_eq_nil_iff.mp h.symm) (by simp)
  | cons c' x =>
      refine ⟨c', x, rfl, ?_⟩
      have hheads := congrArg List.head? h
      -- A blank is squeezed to a space, which nothing else is.
      cases hc : isBlank c with
      | true =>
          rw [head?_squeezed_of_blank hc] at hheads
          cases hc' : isBlank c' with
          | true => exact .inr (.inr ⟨hc, hc'⟩)
          | false =>
              rw [squeezed_of_not_blank hc'] at hheads
              exact absurd (Option.some.inj hheads) (toLower_ne_space hc')
      | false =>
          rw [squeezed_of_not_blank hc] at hheads
          cases hc' : isBlank c' with
          | true =>
              rw [head?_squeezed_of_blank hc'] at hheads
              exact absurd (Option.some.inj hheads).symm (toLower_ne_space hc)
          | false =>
              rw [squeezed_of_not_blank hc'] at hheads
              exact .of_toLower_eq (Option.some.inj hheads)

/-- The dot at the start of a token is not all of it. -/
theorem ne_nil_of_dot {kind : TokenKind} (hkind : kind = .name ∨ kind = .subAttribute)
    {x rest : List Char} (h : recogniserOf kind ('.' :: (x ++ rest)) = some ('.' :: x, rest)) :
    x ≠ [] := by
  rintro rfl
  rcases hkind with rfl | rfl
  · obtain ⟨found, hfound⟩ := exists_qualifier_of_name h (by decide)
    obtain ⟨qualified, mid, dotted, hqualifier, hm, hdotted, -⟩ := name_dotted h
    rw [Recogniser.optional, hfound] at hqualifier
    cases hqualifier
    obtain ⟨schema, rfl⟩ := qualifier_eq_append_colon hfound
    have hlength := congrArg List.length hm
    have hpos := List.length_pos_iff.mpr hdotted
    simp only [List.length_append, List.length_cons] at hlength
    omega
  · obtain ⟨hrest, -, x, hx, hne, -⟩ := subAttribute_eq_some_iff.mp h
    rw [← hrest] at hx
    exact hne (List.cons.inj hx).2.symm

/-- A text resembles what it becomes if its first token is spelled differently. -/
theorem resembles_of_lexeme? {mode : Mode} {kind : TokenKind} {m m' rest rest' : List Char}
    (h : lexeme? mode (m ++ rest) = some (kind, m, rest)) (hm : Respells kind m m') :
    Resembles (m ++ rest) (m' ++ rest') := by
  have hfound := recogniserOf_of_lexeme? h
  obtain ⟨c, x, rfl⟩ := List.exists_cons_of_ne_nil (lexeme?_splits h).2
  obtain ⟨c', x', rfl, halike⟩ := exists_alike_of_squeezed hm.squeezed_eq
  refine .cons halike ?_
  rintro rfl
  -- Only a name or a sub-attribute starts with a dot, and its text stays.
  have hkind : kind = .name ∨ kind = .subAttribute := by
    by_contra hkind
    rw [not_or] at hkind
    rw [List.cons_append, recogniserOf_eq_none_of_schema (by decide) (by decide) hkind] at hfound
    contradiction
  have hne := ne_nil_of_dot hkind hfound
  have hsame : c' :: x' = '.' :: x := by
    rcases hkind with rfl | rfl <;> exact hm
  obtain ⟨rfl, rfl⟩ := List.cons.inj hsame
  show (x' ++ rest').head? = (x' ++ rest).head?
  rw [List.head?_append_of_ne_nil _ hne, List.head?_append_of_ne_nil _ hne]

/-- The first token of a text is found again if it is spelled differently and what follows it
resembles what did before. -/
theorem lexeme?_respelled {mode : Mode} {kind : TokenKind} {m m' rest rest' : List Char}
    (h : lexeme? mode (m ++ rest) = some (kind, m, rest)) (hm : Respells kind m m')
    (hrest : Resembles rest rest') (hname : kind = .name → Delimited rest ∨ rest' = rest) :
    lexeme? mode (m' ++ rest') = some (kind, m', rest') := by
  have hfound := recogniserOf_of_lexeme? h
  by_cases hkeyword : kind ∈ keywordKinds
  · rw [lexeme?_eq_keyword_iff mode hkeyword] at h ⊢
    exact h.respelled hm hrest
  -- Other tokens keep their text, so it is only the text behind them that may differ.
  obtain rfl := hm.eq_of_not_keyword hkeyword
  cases kind with
  | boolean | null | negation | logicalOperator | comparisonOperator =>
      exact absurd (by decide) hkeyword
  | number =>
      refine lexeme?_eq_some_iff.mpr ⟨(lexeme?_eq_some_iff.mp h).1, ?_, ?_⟩
      · exact number_of_resembles hfound hrest
      · simp [kindsBefore, TokenKind.all]
  | string =>
      obtain ⟨body, hbody, rfl, -⟩ := string_eq_some_iff.mp hfound
      refine (lexeme?_of_decisive mode (by decide : (.string, '"') ∈ decisive)).mpr ⟨rfl, ?_⟩
      exact string_eq_some_iff.mpr ⟨body, hbody, rfl, rfl⟩
  | parenOpen | parenClose | bracketOpen | bracketClose =>
      obtain ⟨rfl, -⟩ := exactly_eq_some_iff.mp hfound
      exact lexeme?_bracket mode (by decide) rest'
  | name =>
      rcases hname rfl with hdelimited | rfl
      · exact lexeme?_name_of_resembles h hdelimited hrest
      · exact h
  | subAttribute =>
      obtain ⟨rfl, -⟩ := lexeme?_eq_subAttribute h
      cases hrest
      exact h

/-! ### Scans -/

/-- A text that the token can have instead of its own. -/
def Token.RespeltAs (t : Token) (text : String) : Prop :=
  Respells t.kind t.text.toList text.toList

/-- It can be decided token by token. -/
instance (t : Token) (text : String) : Decidable (t.RespeltAs text) :=
  inferInstanceAs (Decidable (Respells t.kind t.text.toList text.toList))

namespace Scans

variable {mode : Mode} {offset : Nat} {cs rest m : List Char} {ts : List Token}
  {texts : List String}

/-- An empty text has no tokens. -/
theorem eq_nil_of_nil (h : Scans mode offset [] ts rest) : ts = [] := by
  cases h with
  | done => rfl
  | step hlex hrest => exact absurd rfl (ne_nil_of_lexeme? hlex)

/-- A token need not be spelled differently. -/
theorem respeltAs_text (h : Scans mode offset cs ts rest) : ∀ t ∈ ts, t.RespeltAs t.text := by
  induction h with
  | done => simp
  | @step offset cs m rest kind ts rest' hlex hscan ih =>
      rw [List.forall_mem_cons]
      refine ⟨?_, ih⟩
      have hfound := recogniserOf_of_lexeme? hlex
      show Respells kind (String.ofList m).toList (String.ofList m).toList
      rw [String.toList_ofList]
      by_cases hkind : kind = .comparisonOperator
      · subst hkind
        exact ⟨rfl, (keyword_of_recogniserOf (by decide) hfound).unspaced_tail⟩
      · cases kind <;> first | rfl | contradiction

/-- A name is followed by a delimiter, or else by nothing that can be spelled differently. -/
theorem delimited_or_eq (h : Scans mode offset rest ts [])
    (htexts : List.Forall₂ Token.RespeltAs ts texts)
    (hname : lexeme? mode (m ++ rest) = some (.name, m, rest)) :
    Delimited rest ∨ texts.flatMap String.toList = rest := by
  cases h with
  | done => exact .inl (by simp [Delimited])
  | @step _ _ m' rest' kind us _ hlex hscan =>
      -- A sub-attribute is the end of the text and keeps its spelling.
      by_cases hkind : kind = .subAttribute
      · subst hkind
        obtain ⟨rfl, -⟩ := lexeme?_eq_subAttribute hlex
        obtain rfl := hscan.eq_nil_of_nil
        cases htexts with
        | cons htext htexts =>
            cases htexts
            have hkind : TokenKind.subAttribute ∉ keywordKinds := by decide
            have hsame := Respells.eq_of_not_keyword htext hkind
            rw [String.toList_ofList] at hsame
            right
            rw [← (lexeme?_splits hlex).1]
            simpa using hsame
      · exact .inl (delimited_of_name hname hlex hkind)

/-- A text is divided into the same tokens as before if some of them are spelled differently. -/
theorem respelled (h : Scans mode offset cs ts [])
    (htexts : List.Forall₂ Token.RespeltAs ts texts) (offset' : Nat) :
    Resembles cs (texts.flatMap String.toList) ∧
      ∃ ts', Scans mode offset' (texts.flatMap String.toList) ts' [] ∧
        ts'.map (·.kind) = ts.map (·.kind) ∧ ts'.map (·.text) = texts := by
  generalize hleft : ([] : List Char) = left at h
  induction h generalizing texts offset' with
  | done offset cs =>
      subst hleft
      cases htexts
      exact ⟨.nil, [], .done _ _, rfl, rfl⟩
  | @step offset cs m rest kind ts left hlex hscan ih =>
      subst hleft
      cases htexts with
      | @cons _ text _ texts htext htexts =>
          obtain ⟨hcs, -⟩ := lexeme?_splits hlex
          rw [← hcs] at hlex ⊢
          have hm : Respells kind m text.toList := by
            have hrespells : Respells kind (String.ofList m).toList text.toList := htext
            rwa [String.toList_ofList] at hrespells
          obtain ⟨hrest, ts', hscan', hkinds, htexts'⟩ :=
            ih htexts (Token.mk kind (String.ofList text.toList) offset').stop rfl
          have hlex' := lexeme?_respelled hlex hm hrest (by
            rintro rfl
            exact hscan.delimited_or_eq htexts hlex)
          refine ⟨resembles_of_lexeme? hlex hm, _, .step hlex' hscan', ?_, ?_⟩
          · simp [hkinds]
          · simp [htexts']

end Scans

end Scim
