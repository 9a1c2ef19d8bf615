import Scim.Proofs.Node.Writable
import Scim.Proofs.Token.Written

/-!
# `Scim.Proofs.Token.Names`: names and the paths they stand for

`AttributePath.ofName` takes a name apart: the schema is what stands in front of the last colon, and
the dots behind it divide the names. `AttributePath.render` puts the path together again, which
gives the same text whatever it was (`render_ofName`).

The rest is about names in a scan:

* `name_parts`: what is scanned as a name has no colon behind the schema, and at most one dot there.
  So its path has one name or two (`length_ofName_le`).
* `IsName.lexable`: the path of a text that is scanned as a name is `Lexable`, since its text is
  that name again.
* `lexable_of_lexeme?` and `comparable_of_lexeme?`: the same for a name in front of a bracket or of
  an operator. It is scanned as one on its own (`IsName.of_lexeme?`), as it does not depend on what
  is behind a delimiter.

`splitAtLastColon` and `splitAtDots` are the two functions that `ofName` is made of. There is a
lemma for each way they can go, so that later proofs need not open them.
-/

set_option autoImplicit false

namespace Scim

open Text Recogniser

namespace AttributePath

/-! ### Taking a name apart -/

/-- What is split at the last colon is put together with it. -/
theorem eq_of_splitAtLastColon {cs before after : List Char}
    (h : splitAtLastColon cs = some (before, after)) : cs = before ++ ':' :: after := by
  induction cs generalizing before with
  | nil => simp [splitAtLastColon] at h
  | cons c cs ih =>
      rw [splitAtLastColon] at h
      split at h
      -- A colon further on is the one that counts.
      · next before' after' hrec =>
          cases h
          rw [ih hrec]
          rfl
      · split at h
        · next hc =>
            cases h
            rw [hc]
            rfl
        · contradiction

/-- The parts between the dots, with the dots put back. -/
theorem splitAtDots_join (cs : List Char) :
    (splitAtDots cs).1 ++ (splitAtDots cs).2.flatMap ('.' :: ·) = cs := by
  induction cs with
  | nil => rfl
  | cons c cs ih =>
      rw [splitAtDots]
      cases hparts : splitAtDots cs with
      | mk first inner =>
          rw [hparts] at ih
          dsimp only at ih ⊢
          split
          · next hc => rw [hc, List.nil_append, List.flatMap_cons, List.cons_append, ih]
          · rw [List.cons_append, ih]

/-- A dotted name is the first name and a dot in front of each other one. -/
theorem toList_dotted (p : AttributePath) :
    p.dotted.toList = p.first.toList ++ p.inner.flatMap ('.' :: ·.toList) := by
  obtain ⟨schema, first, inner⟩ := p
  unfold dotted
  induction inner generalizing first with
  | nil => simp
  | cons name inner ih => simp [ih]

/-- A name is the text of the path it stands for. -/
theorem render_ofName (text : String) : (ofName text).render = text := by
  -- The names are put together alike with and without a schema.
  have hdotted : ∀ (schema : Option String) (cs : List Char),
      (dotted ⟨schema, String.ofList (splitAtDots cs).1,
        (splitAtDots cs).2.map String.ofList⟩).toList = cs := by
    intro schema cs
    rw [toList_dotted]
    simp only [String.toList_ofList, List.flatMap_map]
    exact splitAtDots_join cs
  apply String.toList_injective
  unfold ofName
  cases hcolon : splitAtLastColon text.toList with
  | none => exact hdotted none text.toList
  | some parts =>
      obtain ⟨before, after⟩ := parts
      have hjoin := hdotted (some (String.ofList before)) after
      simp only [render, String.toList_append, String.toList_ofList, hjoin]
      rw [eq_of_splitAtLastColon hcolon]
      simp

/-! ### How many names there are -/

/-- Without a colon there is no schema. -/
theorem splitAtLastColon_eq_none {cs : List Char} (h : ':' ∉ cs) : splitAtLastColon cs = none := by
  induction cs with
  | nil => rfl
  | cons c cs ih =>
      rw [List.mem_cons, not_or] at h
      rw [splitAtLastColon, ih h.2]
      exact if_neg (Ne.symm h.1)

/-- What has no colon behind it is the last one, so the text is split there. -/
theorem splitAtLastColon_append (before : List Char) {after : List Char} (h : ':' ∉ after) :
    splitAtLastColon (before ++ ':' :: after) = some (before, after) := by
  induction before with
  | nil =>
      rw [List.nil_append, splitAtLastColon, splitAtLastColon_eq_none h]
      rfl
  | cons c before ih => rw [List.cons_append, splitAtLastColon, ih]

/-- Without a dot there is a single name. -/
theorem splitAtDots_eq_self {cs : List Char} (h : '.' ∉ cs) : splitAtDots cs = (cs, []) := by
  induction cs with
  | nil => rfl
  | cons c cs ih =>
      rw [List.mem_cons, not_or] at h
      rw [splitAtDots, ih h.2]
      exact if_neg (Ne.symm h.1)

/-- Behind the first part, there is one more for each dot. -/
theorem length_splitAtDots (cs : List Char) : (splitAtDots cs).2.length = cs.count '.' := by
  induction cs with
  | nil => rfl
  | cons c cs ih =>
      rw [splitAtDots]
      cases hparts : splitAtDots cs with
      | mk first inner =>
          rw [hparts] at ih
          dsimp only at ih ⊢
          split
          · next hc => rw [hc, List.length_cons, List.count_cons_self, ih]
          · next hc => rw [List.count_cons_of_ne hc, ih]

/-- The dots behind the last colon divide the names. -/
theorem length_ofName {text : String} {dotted : List Char} (hcolon : ':' ∉ dotted)
    (htext : text.toList = dotted ∨ ∃ schema, text.toList = schema ++ ':' :: dotted) :
    (ofName text).length = dotted.count '.' + 1 := by
  unfold ofName
  rcases htext with htext | ⟨schema, htext⟩
  · rw [htext, splitAtLastColon_eq_none hcolon]
    simp [length, names, length_splitAtDots]
  · rw [htext, splitAtLastColon_append schema hcolon]
    simp [length, names, length_splitAtDots]

end AttributePath

namespace Recogniser

/-- A qualifier ends in a colon. -/
theorem qualifier_eq_append_colon {started : Bool} {cs m rest : List Char}
    (h : qualifier started cs = some (m, rest)) : ∃ schema, m = schema ++ [':'] := by
  induction cs generalizing started m with
  | nil => simp [qualifier] at h
  | cons c cs ih =>
      rw [qualifier] at h
      split at h
      · split at h
        · next m' rest' hrec =>
            cases h
            obtain ⟨schema, rfl⟩ := ih hrec
            -- A later colon was found, so this character is a part of the schema.
            exact ⟨c :: schema, rfl⟩
        · split at h
          · next hc =>
              obtain ⟨⟨-, rfl⟩, -⟩ : (started = true ∧ c = ':') ∧ startsName cs = true := by
                simpa using hc
              cases h
              exact ⟨[], rfl⟩
          · contradiction
      · contradiction

/-- A run has no character outside of its class in it. -/
theorem not_mem_of_many1 {p : Char → Bool} {cs m rest : List Char} {c : Char}
    (h : many1 p cs = some (m, rest)) (hc : p c = false) : c ∉ m := by
  obtain ⟨-, rfl, -⟩ := many1_eq_some_iff.mp h
  intro hmem
  have hall := List.all_eq_true.mp List.all_takeWhile c hmem
  rw [hc] at hall
  contradiction

/-- A name is a dotted part without colons and with at most one dot, and possibly a schema and a
colon in front of it. -/
theorem name_parts {cs m rest : List Char} (h : name cs = some (m, rest)) :
    ∃ dotted, ':' ∉ dotted ∧ dotted.count '.' ≤ 1 ∧
      (m = dotted ∨ ∃ schema, m = schema ++ ':' :: dotted) := by
  have hcolon : isNameChar ':' = false := by decide
  have hdot : isNameChar '.' = false := by decide
  obtain ⟨qualified, mid, dotted, hqualifier, hdotted, rfl⟩ := andThen_eq_some_iff.mp h
  obtain ⟨first, mid', inner, hfirst, hinner, rfl⟩ := andThen_eq_some_iff.mp hdotted
  have hfirstColon := not_mem_of_many1 hfirst hcolon
  have hfirstDot := List.count_eq_zero.mpr (not_mem_of_many1 hfirst hdot)
  -- The part behind the first name is a dot and a name, or nothing.
  have hparts : ':' ∉ inner ∧ inner.count '.' ≤ 1 := by
    rcases optional_eq_some_iff.mp hinner with hinner | ⟨-, hnone⟩
    · obtain ⟨point, mid'', second, hpoint, hsecond, rfl⟩ := andThen_eq_some_iff.mp hinner
      obtain ⟨rfl, -⟩ := exactly_eq_some_iff.mp hpoint
      have hsecondColon := not_mem_of_many1 hsecond hcolon
      have hsecondDot := List.count_eq_zero.mpr (not_mem_of_many1 hsecond hdot)
      rw [List.singleton_append, List.count_cons_self, hsecondDot]
      exact ⟨by simpa using hsecondColon, Nat.le_refl 1⟩
    · cases hnone
      simp
  refine ⟨first ++ inner, ?_, ?_, ?_⟩
  · simp [hfirstColon, hparts.1]
  · rw [List.count_append, hfirstDot, Nat.zero_add]
    exact hparts.2
  · rcases optional_eq_some_iff.mp hqualifier with hqualifier | ⟨-, hnone⟩
    · obtain ⟨schema, rfl⟩ := qualifier_eq_append_colon hqualifier
      exact .inr ⟨schema, by simp⟩
    · cases hnone
      exact .inl rfl

end Recogniser

/-- What is scanned as a name has one name or two. -/
theorem length_ofName_le {mode : Mode} {cs rest : List Char} {text : String}
    (h : lexeme? mode cs = some (.name, text.toList, rest)) :
    (AttributePath.ofName text).length ≤ 2 := by
  obtain ⟨dotted, hcolon, hdots, htext⟩ := name_parts (recogniserOf_of_lexeme? h)
  rw [AttributePath.length_ofName hcolon htext]
  omega

/-! ### Names in a scan -/

/-- The path of a text that is a name. -/
theorem IsName.lexable {text : String} (h : IsName text.toList) :
    (AttributePath.ofName text).Lexable := by
  have hscan := isName_iff.mp h
  refine ⟨?_, ?_⟩
  · rw [AttributePath.render_ofName]
    exact hscan
  · rw [AttributePath.render_ofName]

/-- The path of a name in front of a bracket. -/
theorem lexable_of_lexeme? {text : String} {more : List Char}
    (h : lexeme? .filter (text.toList ++ '[' :: more)
      = some (.name, text.toList, '[' :: more)) : (AttributePath.ofName text).Lexable :=
  (IsName.of_lexeme? (endsName_of_bracket (by decide)) h).lexable

/-- The path of a name in front of a blank. The name is not `not`, which would be a negation. -/
theorem comparable_of_lexeme? {text : String} {d : Char} (hd : isBlank d = true)
    {more : List Char} (h : lexeme? .filter (text.toList ++ d :: more)
      = some (.name, text.toList, d :: more)) : (AttributePath.ofName text).Comparable := by
  have hname := IsName.of_lexeme? (endsName_of_blank hd) h
  have hnegation : negation (text.toList ++ d :: more) = none :=
    (lexeme?_eq_some_iff.mp h).2.2 .negation (by decide)
  have hnot := (negation_append_blank (negation_eq_none_of_append hnegation) hd more).mp hnegation
  refine ⟨hname.lexable, ?_⟩
  rw [AttributePath.render_ofName]
  simpa [sameIgnoringCase] using hnot

end Scim
