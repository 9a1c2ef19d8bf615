import Mathlib.Data.List.TakeWhile
import Scim.Proofs.Token.Rescan

/-!
# `Scim.Proofs.Token.SubAttribute`: the end of a path

A path may have a sub-attribute behind its closing bracket, a filter may not. This is the only
difference between the two scans (`lexeme?_path`), and it can only show at the very end:

* `Scans.kind_ne_subAttribute`: where text is left, no sub-attribute has been found, because one is
  all that is left of the text (`subAttribute_eq_some_iff`).
* `Scans.in_mode`: without a sub-attribute the mode does not matter.
* `Scans.in_path`: so what is scanned in a filter is scanned alike in a path.

The result is `Scans.reclose`. Up to a closing bracket, the same tokens are found in both modes and
whatever comes behind the bracket. With it a value path is carried over from a filter to a path and
back.

`IsSubAttribute.lexeme?` is about what may come behind the bracket: a dot and a name with nothing
behind it is found as one token. That takes a look at the other rows. No literal or operator starts
with a dot, and a name would need a colon further on, since with a dot in front only a schema goes
on (`name_dot_eq_none`).
-/

set_option autoImplicit false

namespace Scim

open Text Recogniser

/-! ### What a sub-attribute is -/

/-- A sub-attribute is a dot and characters of a name, and it is all that is left of the text. -/
theorem subAttribute_eq_some_iff {cs m rest : List Char} :
    subAttribute cs = some (m, rest) ↔
      m = cs ∧ rest = [] ∧ ∃ x, cs = '.' :: x ∧ x ≠ [] ∧ ∀ c ∈ x, isNameChar c = true := by
  constructor
  · intro h
    have hsplit := subAttribute_splits _ _ _ h
    obtain ⟨hdotted, hend⟩ := followedBy_eq_some_iff.mp h
    obtain rfl : rest = [] := List.isEmpty_iff.mp hend
    obtain ⟨dot, mid, x, hdot, hmany, rfl⟩ := andThen_eq_some_iff.mp hdotted
    obtain ⟨rfl, -⟩ := exactly_eq_some_iff.mp hdot
    obtain ⟨hne, rfl, -⟩ := many1_eq_some_iff.mp hmany
    rw [List.append_nil] at hsplit
    exact ⟨hsplit, rfl, _, hsplit.symm, hne, List.all_eq_true.mp List.all_takeWhile⟩
  · rintro ⟨rfl, rfl, x, rfl, hne, hx⟩
    have hmany : many1 isNameChar x = some (x, []) :=
      many1_eq_some_iff.mpr ⟨hne, (List.takeWhile_eq_self_iff.mpr hx).symm,
        (List.dropWhile_eq_nil_iff.mpr hx).symm⟩
    refine followedBy_eq_some_iff.mpr ⟨?_, rfl⟩
    exact andThen_eq_some_iff.mpr ⟨['.'], x, x, exactly_eq_some_iff.mpr ⟨rfl, rfl⟩, hmany, rfl⟩

/-- A sub-attribute starts with a dot, and there is nothing behind it. -/
theorem lexeme?_eq_subAttribute {mode : Mode} {cs m rest : List Char}
    (h : lexeme? mode cs = some (.subAttribute, m, rest)) : rest = [] ∧ ∃ x, m = '.' :: x := by
  have hfound : subAttribute cs = some (m, rest) := recogniserOf_of_lexeme? h
  obtain ⟨rfl, rfl, x, rfl, -⟩ := subAttribute_eq_some_iff.mp hfound
  exact ⟨rfl, x, rfl⟩

/-- In a path, a sub-attribute is what is tried last. -/
theorem lexeme?_path (cs : List Char) :
    lexeme? .path cs = (lexeme? .filter cs).or (lexemeOf? cs .subAttribute) := by
  rw [lexeme?_eq_findSome?, lexeme?_eq_findSome?,
    show kinds .path = kinds .filter ++ [.subAttribute] from rfl, List.findSome?_append,
    List.findSome?_singleton]

/-- Without a colon there is no qualifier. -/
theorem qualifier_eq_none {cs : List Char} (h : ':' ∉ cs) (started : Bool) :
    qualifier started cs = none := by
  induction cs generalizing started with
  | nil => rfl
  | cons c cs ih =>
      rw [List.mem_cons, not_or] at h
      have hc : (c == ':') = false := by simpa using Ne.symm h.1
      simp [qualifier, ih h.2, hc]

/-- A text that starts with a dot is no name unless there is a colon in it. -/
theorem name_dot_eq_none {x : List Char} (h : ':' ∉ x) : name ('.' :: x) = none := by
  have hcolon : ':' ∉ '.' :: x := by simpa using h
  have hoptional : optional (qualifier false) ('.' :: x) = some ([], '.' :: x) :=
    optional_eq_some_iff.mpr (.inr ⟨qualifier_eq_none hcolon false, rfl⟩)
  have hfirst : many1 isNameChar ('.' :: x) = none := many1_cons_eq_none (by decide) x
  unfold name
  rw [andThen, hoptional]
  simp [andThen_eq_none hfirst]

/-- A dot and characters of a name, and nothing behind them. -/
theorem lexeme?_subAttribute {x : List Char} (hne : x ≠ []) (hx : ∀ c ∈ x, isNameChar c = true) :
    lexeme? .path ('.' :: x) = some (.subAttribute, '.' :: x, []) := by
  refine lexeme?_eq_some_iff.mpr ⟨by decide, ?_, ?_⟩
  · exact subAttribute_eq_some_iff.mpr ⟨rfl, rfl, x, rfl, hne, hx⟩
  · intro k hk
    -- The dot alone rules out every other row but that of a name, which would need a colon.
    have hcolon : ':' ∉ x := fun hmem => absurd (hx ':' hmem) (by decide)
    cases k with
    | number => exact number_cons_eq_none (by decide) x
    | string => exact string_cons_eq_none (by decide) x
    | boolean => exact boolean_cons_eq_none (by decide) (by decide) x
    | null => exact null_cons_eq_none (by decide) x
    | parenOpen => exact exactly_cons_eq_none (by decide) x
    | parenClose => exact exactly_cons_eq_none (by decide) x
    | bracketOpen => exact exactly_cons_eq_none (by decide) x
    | bracketClose => exact exactly_cons_eq_none (by decide) x
    | negation => exact negation_cons_eq_none (by decide) x
    | logicalOperator => exact logicalOperator_cons_eq_none (by decide) x
    | comparisonOperator => exact comparisonOperator_cons_eq_none (by decide) x
    | name => exact name_dot_eq_none hcolon
    | subAttribute => exact absurd hk (by decide)

/-- A sub-attribute as it is usually written: letters, digits, hyphens and underscores. -/
def IsSubAttribute (x : String) : Prop :=
  x ≠ "" ∧ ∀ c ∈ x.toList, c.isAlphanum = true ∨ c = '-' ∨ c = '_'

/-- It can be decided character by character. -/
instance (x : String) : Decidable (IsSubAttribute x) :=
  decidable_of_iff (x ≠ "" ∧ x.toList.all fun c => c.isAlphanum || c == '-' || c == '_')
    (by simp [IsSubAttribute, or_assoc])

/-- What is usually written in a name may stand in one. -/
theorem isNameChar_of_isAlphanum {c : Char} (h : c.isAlphanum = true ∨ c = '-' ∨ c = '_') :
    isNameChar c = true := by
  rcases h with h | rfl | rfl
  · have hall : ∀ c : Char, c.toNat < 128 → c.isAlphanum = true → isNameChar c = true :=
      forall_ascii (by decide +kernel)
    exact hall c (ascii_of_isAlphanum h) h
  all_goals decide

/-- A sub-attribute as it is usually written is found as one in a path. -/
theorem IsSubAttribute.lexeme? {x : String} (h : IsSubAttribute x) :
    lexeme? .path ('.' :: x.toList) = some (.subAttribute, '.' :: x.toList, []) := by
  refine lexeme?_subAttribute ?_ fun c hc => isNameChar_of_isAlphanum (h.2 c hc)
  simpa using h.1

/-! ### Scans in the two modes -/

namespace Scans

variable {mode : Mode} {offset : Nat} {cs rest : List Char} {ts : List Token}

/-- Where text is left, no sub-attribute has been found. -/
theorem kind_ne_subAttribute (h : Scans mode offset cs ts rest) (hrest : rest ≠ []) :
    ∀ t ∈ ts, t.kind ≠ .subAttribute := by
  induction h with
  | done => simp
  | @step offset cs m rest kind ts rest' hlex hscan ih =>
      rw [List.forall_mem_cons]
      refine ⟨?_, ih hrest⟩
      rintro rfl
      -- Nothing is left behind a sub-attribute, so nothing can be left in the end.
      obtain ⟨rfl, -⟩ := lexeme?_eq_subAttribute hlex
      exact hrest (List.append_eq_nil_iff.mp hscan.charsOf_append).2

/-- Without a sub-attribute, the mode does not matter. -/
theorem in_mode (h : Scans mode offset cs ts rest) (hkinds : ∀ t ∈ ts, t.kind ≠ .subAttribute)
    (mode' : Mode) : Scans mode' offset cs ts rest := by
  induction h with
  | done offset cs => exact .done offset cs
  | step hlex hscan ih =>
      rw [List.forall_mem_cons] at hkinds
      exact .step (lexeme?_mode hkinds.1 hlex) (ih hkinds.2)

/-- What is scanned in a filter has no sub-attribute in it, so it is scanned alike in a path. -/
theorem in_path (h : Scans .filter offset cs ts rest) : Scans .path offset cs ts rest := by
  induction h with
  | done offset cs => exact .done offset cs
  | step hlex hscan ih => exact .step (lexeme?_mode (ne_subAttribute_of_lexeme? hlex) hlex) ih

/-- Up to a closing bracket, the same tokens are found in both modes and whatever comes behind. -/
theorem reclose {closing : Token} (h : Scans mode offset cs (ts ++ [closing]) rest)
    (hclose : closing.kind = .bracketClose) (mode' : Mode) (more : List Char) :
    Scans mode' offset (Token.charsOf (ts ++ [closing]) ++ more) (ts ++ [closing]) more := by
  have hoffset := h.offset_eq
  obtain ⟨mid, hts, hbracket⟩ := h.of_append
  have htext : closing.text.toList = [']'] :=
    hbracket.text_eq_of_bracket (by rw [hclose]; decide)
  have hmid : mid = ']' :: rest := by
    rw [← hbracket.charsOf_append, Token.charsOf_cons, htext]
    rfl
  -- In front of the bracket there is no sub-attribute, and the text behind it can be exchanged.
  rw [← hts.charsOf_append, hmid] at hts
  have hfilter := hts.in_mode (hts.kind_ne_subAttribute (by simp)) .filter
  have hmore := (hfilter.truncate (by decide)).extend (by decide : ']' ∈ brackets) more
  have hpath := hmore.in_mode (hmore.kind_ne_subAttribute (by simp)) mode'
  have hlast : Scans mode' closing.offset (']' :: more) [closing] more := by
    have hlex := lexeme?_bracket mode' (by decide : (.bracketClose, ']') ∈ decisive.dropLast) more
    have htoken : (⟨.bracketClose, String.ofList [']'], closing.offset⟩ : Token) = closing := by
      rw [← htext, String.ofList_toList, ← hclose]
    rw [← htoken]
    exact .step hlex (.done _ more)
  have hall := hpath.append hoffset hlast
  rw [Token.charsOf_append, Token.charsOf_cons, htext]
  simpa using hall

end Scans

end Scim
