import Scim.Proofs.Parse.Accepted
import Scim.Proofs.Parse.Spelling

/-!
# `Scim.Proofs.Parse.Decoding`: what the scan finds can be read

A token is recognised by one set of rules and read by another. The scan folds the case of letters
and takes a qualifier up to the last colon that a name can follow. The readers compare ASCII
letters, split at the last colon and at every dot, and trim blanks. `Token.Decodes` says of a token,
kind by kind, that it is read as what it was recognised as, and every token of a scan decodes
(`Scanned.decodes`).

* Names: `plain_ofName_of_name`, through the parts that the recogniser puts together. None of them
  has a dot or a colon, so the readers split where the parts meet.
* Operators: `Keyword.exists_read_logicalOperator` and `Keyword.exists_read_operator_iff`. Letters
  are folded by the scan and put into lower case by the readers; `map_toLower_of_fold` says where
  this makes a difference.
* Numbers and strings: by the lemmas of `Scim.Proofs.Parse.Accepted` and of the recognisers.

There is one exception. A long s folds to `s`, so that the scan finds an operator in `ſw`, but no
keyword has such a letter and the operator is not read.
-/

set_option autoImplicit false

namespace Scim

open Text Recogniser

/-! ### Names -/

/-- The characters of a single attribute name. -/
structure NamePart (part : List Char) : Prop where
  ne_nil : part ≠ []
  no_dot : '.' ∉ part
  no_colon : ':' ∉ part

/-- A path as it stands in an expression: a schema is not empty, there are one or two names, and
each of them could stand on its own. -/
structure AttributePath.Plain (p : AttributePath) : Prop where
  schema : ∀ schema ∈ p.schema, schema ≠ ""
  length : p.names.length = 1 ∨ p.names.length = 2
  names : ∀ name ∈ p.names, name ≠ "" ∧ '.' ∉ name.toList ∧ ':' ∉ name.toList

namespace AttributePath

/-- The first dot is where the names are split. -/
theorem splitAtDots_append {first : List Char} (h : '.' ∉ first) (cs : List Char) :
    splitAtDots (first ++ '.' :: cs) = (first, (splitAtDots cs).1 :: (splitAtDots cs).2) := by
  induction first with
  | nil => rfl
  | cons c first ih =>
      rw [List.mem_cons, not_or] at h
      rw [List.cons_append, splitAtDots, ih h.2]
      exact if_neg (Ne.symm h.1)

/-- A name without a colon has no schema. -/
theorem ofName_of_toList {text : String} {dotted : List Char} (hcolon : ':' ∉ dotted)
    (htext : text.toList = dotted) :
    ofName text = ⟨none, String.ofList (splitAtDots dotted).1,
      (splitAtDots dotted).2.map String.ofList⟩ := by
  unfold ofName
  rw [htext, splitAtLastColon_eq_none hcolon]

/-- The last colon of a name ends its schema. -/
theorem ofName_of_qualified {text : String} {schema dotted : List Char} (hcolon : ':' ∉ dotted)
    (htext : text.toList = schema ++ ':' :: dotted) :
    ofName text = ⟨some (String.ofList schema), String.ofList (splitAtDots dotted).1,
      (splitAtDots dotted).2.map String.ofList⟩ := by
  unfold ofName
  rw [htext, splitAtLastColon_append schema hcolon]

/-- A path of one or two parts is plain. -/
theorem plain_of_parts {schema : Option String} {first : List Char} {inner : List (List Char)}
    (hschema : ∀ text ∈ schema, text ≠ "") (hinner : inner.length ≤ 1)
    (hparts : ∀ part ∈ first :: inner, NamePart part) :
    Plain ⟨schema, String.ofList first, inner.map String.ofList⟩ where
  schema := hschema
  length := by
    show (inner.map String.ofList).length + 1 = 1 ∨ (inner.map String.ofList).length + 1 = 2
    rw [List.length_map]
    omega
  names := by
    intro name hname
    have hname : name ∈ (first :: inner).map String.ofList := hname
    obtain ⟨part, hpart, rfl⟩ := List.mem_map.mp hname
    have h := hparts part hpart
    rw [String.toList_ofList]
    refine ⟨?_, h.no_dot, h.no_colon⟩
    intro hempty
    exact h.ne_nil (String.ofList_injective hempty)

end AttributePath

namespace Recogniser

/-- A run of name characters is a part of a name. Dots and colons are none of these characters. -/
theorem namePart_of_many1 {cs m rest : List Char} (h : many1 isNameChar cs = some (m, rest)) :
    NamePart m where
  ne_nil := (many1_eq_some_iff.mp h).1
  no_dot := not_mem_of_many1 h (by decide)
  no_colon := not_mem_of_many1 h (by decide)

/-- In front of the colon of a qualifier there is at least one character. -/
theorem exists_schema_of_qualifier {cs m rest : List Char}
    (h : qualifier false cs = some (m, rest)) : ∃ schema, schema ≠ [] ∧ m = schema ++ [':'] := by
  cases cs with
  | nil => simp [qualifier] at h
  | cons c cs =>
      rw [qualifier] at h
      split at h
      · split at h
        · next m' rest' hrec =>
            cases h
            obtain ⟨schema, rfl⟩ := qualifier_eq_append_colon hrec
            exact ⟨c :: schema, by simp, rfl⟩
        -- The first character is never taken for the colon.
        · simp at h
      · contradiction

/-- What is behind the qualifier: a name, or two with a dot between them. -/
theorem splitAtDots_of_dotted {cs m rest : List Char}
    (h : andThen (many1 isNameChar) (optional dottedName) cs = some (m, rest)) :
    ':' ∉ m ∧ ∃ first inner, AttributePath.splitAtDots m = (first, inner) ∧ inner.length ≤ 1 ∧
      ∀ part ∈ first :: inner, NamePart part := by
  obtain ⟨first, mid, behind, hmany, hbehind, rfl⟩ := andThen_eq_some_iff.mp h
  have hfirst := namePart_of_many1 hmany
  -- There is a second name behind a dot, or the first one is all.
  rcases optional_eq_some_iff.mp hbehind with hdotted | ⟨-, hnone⟩
  · obtain ⟨point, mid', second, hpoint, hsecond, rfl⟩ := andThen_eq_some_iff.mp hdotted
    obtain ⟨rfl, -⟩ := exactly_eq_some_iff.mp hpoint
    have hsecond := namePart_of_many1 hsecond
    refine ⟨by simp [hfirst.no_colon, hsecond.no_colon], first, [second], ?_, by simp, ?_⟩
    · show AttributePath.splitAtDots (first ++ '.' :: second) = _
      rw [AttributePath.splitAtDots_append hfirst.no_dot,
        AttributePath.splitAtDots_eq_self hsecond.no_dot]
    · simp [hfirst, hsecond]
  · cases hnone
    rw [List.append_nil]
    exact ⟨hfirst.no_colon, first, [], AttributePath.splitAtDots_eq_self hfirst.no_dot, by simp,
      by simpa using hfirst⟩

end Recogniser

/-- The path that a name of a scan stands for. -/
theorem plain_ofName_of_name {cs rest : List Char} {text : String}
    (h : name cs = some (text.toList, rest)) : (AttributePath.ofName text).Plain := by
  obtain ⟨qualified, mid, dotted, hqualifier, hdotted, htext⟩ := andThen_eq_some_iff.mp h
  obtain ⟨hcolon, first, inner, hsplit, hinner, hparts⟩ := splitAtDots_of_dotted hdotted
  rcases optional_eq_some_iff.mp hqualifier with hqualifier | ⟨-, hnone⟩
  · obtain ⟨schema, hne, rfl⟩ := exists_schema_of_qualifier hqualifier
    rw [List.append_assoc] at htext
    rw [AttributePath.ofName_of_qualified hcolon htext, hsplit]
    refine AttributePath.plain_of_parts ?_ hinner hparts
    intro _ hschema hempty
    cases hschema
    exact hne (String.ofList_injective hempty)
  · cases hnone
    rw [AttributePath.ofName_of_toList hcolon htext, hsplit]
    exact AttributePath.plain_of_parts (by simp) hinner hparts

/-! ### Keywords -/

namespace Text

/-- Folding differs from lower case at the long s and at the Kelvin sign only, and no keyword has
the letter that the latter folds to. -/
theorem map_toLower_of_fold {w keyword : List Char} (hw : w.map foldCase = keyword)
    (hk : 'k' ∉ keyword) (hs : longS ∉ w) : w.map Char.toLower = keyword := by
  rw [← hw] at hk ⊢
  refine List.map_congr_left fun c hc => ?_
  have hlong : c ≠ longS := by
    rintro rfl
    exact hs hc
  have hkelvin : c ≠ kelvinSign := by
    rintro rfl
    exact hk (List.mem_map_of_mem (f := foldCase) hc)
  simp [foldCase, hlong, hkelvin]

/-- There is no long s in a text that folds to a keyword without an s. -/
theorem longS_not_mem_of_fold {w keyword : List Char} (hw : w.map foldCase = keyword)
    (hs : 's' ∉ keyword) : longS ∉ w := by
  intro hmem
  rw [← hw] at hs
  exact hs (List.mem_map_of_mem (f := foldCase) hmem)

end Text

/-- An operator is read exactly from its keyword, trimmed and in lower case. -/
theorem exists_readKeyword_iff {α : Type} {all : List α} {keyword : α → String}
    (hall : ∀ a, a ∈ all) (hlower : ∀ a, (keyword a).toList.map Char.toLower = (keyword a).toList)
    {text : String} : (∃ a, readKeyword all keyword text = .ok a) ↔
      ∃ a, (trimBlanks text.toList).map Char.toLower = (keyword a).toList := by
  have hsame : ∀ a, sameIgnoringCase (keyword a) (trimmed text) = true ↔
      (trimBlanks text.toList).map Char.toLower = (keyword a).toList := by
    intro a
    rw [sameIgnoringCase, hlower, beq_iff_eq, trimmed, String.toList_ofList, eq_comm]
  simp only [readKeyword_eq_ok_iff]
  rw [← Option.isSome_iff_exists, List.find?_isSome]
  constructor
  · intro h
    obtain ⟨a, -, ha⟩ := h
    exact ⟨a, (hsame a).mp ha⟩
  · intro h
    obtain ⟨a, ha⟩ := h
    exact ⟨a, hall a, (hsame a).mpr ha⟩

/-- Comparison operators are read from their keywords only. -/
theorem Operator.exists_read_iff {text : String} : (∃ o, Operator.read text = .ok o) ↔
    ∃ o : Operator, (trimBlanks text.toList).map Char.toLower = o.keyword.toList := by
  refine exists_readKeyword_iff ?_ ?_ <;>
    · intro o
      cases o <;> decide

/-- Logical operators are read from their keywords only. -/
theorem LogicalOperator.exists_read_iff {text : String} :
    (∃ o, LogicalOperator.read text = .ok o) ↔
      ∃ o : LogicalOperator, (trimBlanks text.toList).map Char.toLower = o.keyword.toList := by
  refine exists_readKeyword_iff ?_ ?_ <;>
    · intro o
      cases o <;> decide

namespace Keyword

variable {kind : TokenKind} {m rest : List Char}

/-- Nothing is left to trim from a trimmed keyword. -/
theorem trimBlanks_trimBlanks (h : Keyword kind m rest) :
    trimBlanks (trimBlanks m) = trimBlanks m := by
  obtain ⟨before, w, after, rfl, hbefore, hw, hne, hafter⟩ := h.exists_parts
  have hself : trimBlanks ([] ++ (w ++ [])) = w :=
    trimBlanks_between (by simp) hw hne (by simp)
  rw [trimBlanks_between hbefore hw hne hafter]
  simpa using hself

/-- The keyword is what is left after trimming. -/
theorem trimBlanks_of_parts {k : String} (hk : k ∈ keywords) {before w after : List Char}
    (hw : w.map foldCase = k.toList) (hbefore : ∀ c ∈ before, isBlank c = true)
    (hafter : ∀ c ∈ after, isBlank c = true) : trimBlanks (before ++ (w ++ after)) = w := by
  obtain ⟨c, cs, rfl, -⟩ := exists_cons_of_keyword hk hw
  exact trimBlanks_between hbefore (not_blank_of_keyword hk hw) (by simp) hafter

/-- What the scan takes for a logical operator folds to the keyword of one. -/
theorem exists_logicalOperator (h : Keyword .logicalOperator m rest) :
    ∃ o : LogicalOperator, (trimBlanks m).map foldCase = o.keyword.toList := by
  cases h with
  | @logicalOperator k before w after rest hbefore hk hw hafter hrest =>
      have hkeyword := (by decide : ["and", "or"] ⊆ keywords) hk
      rw [trimBlanks_of_parts hkeyword hw hbefore.isBlank hafter.isBlank, hw]
      have hall : ∀ k ∈ ["and", "or"], ∃ o ∈ LogicalOperator.all, k.toList = o.keyword.toList := by
        decide
      obtain ⟨o, -, ho⟩ := hall k hk
      exact ⟨o, ho⟩

/-- What the scan takes for a comparison operator folds to the keyword of one. -/
theorem exists_operator (h : Keyword .comparisonOperator m rest) :
    ∃ o : Operator, (trimBlanks m).map foldCase = o.keyword.toList := by
  cases h with
  | @binary k d w after rest hd hk hw hafter hrest =>
      have hkeyword := (by decide : binaryKeywords ⊆ keywords) hk
      -- The blank in front is a run of one, and there may be more behind.
      have htrim : trimBlanks ([d] ++ (w ++ after)) = w :=
        trimBlanks_of_parts hkeyword hw (by simpa using hd) hafter.isBlank
      rw [List.singleton_append] at htrim
      rw [htrim, hw]
      have hall : ∀ k ∈ binaryKeywords, ∃ o ∈ Operator.all, k.toList = o.keyword.toList := by
        decide
      obtain ⟨o, -, ho⟩ := hall k hk
      exact ⟨o, ho⟩
  | @present d w rest hd hw hrest =>
      have htrim : trimBlanks ([d] ++ (w ++ [])) = w :=
        trimBlanks_of_parts (by decide : "pr" ∈ keywords) hw (by simpa using hd) (by simp)
      rw [List.append_nil, List.singleton_append] at htrim
      rw [htrim]
      exact ⟨.pr, hw⟩

/-- A logical operator of a scan is read, trimmed or not. -/
theorem exists_read_logicalOperator (h : Keyword .logicalOperator m rest) {text : String}
    (htext : trimBlanks text.toList = trimBlanks m) : ∃ o, LogicalOperator.read text = .ok o := by
  obtain ⟨o, ho⟩ := h.exists_logicalOperator
  have hletters : ∀ o : LogicalOperator, 's' ∉ o.keyword.toList ∧ 'k' ∉ o.keyword.toList := by
    intro o
    cases o <;> decide
  have hlong := longS_not_mem_of_fold ho (hletters o).1
  rw [LogicalOperator.exists_read_iff, htext]
  exact ⟨o, map_toLower_of_fold ho (hletters o).2 hlong⟩

/-- A comparison operator of a scan is read, trimmed or not, unless there is a long s in it. -/
theorem exists_read_operator_iff (h : Keyword .comparisonOperator m rest) {text : String}
    (htext : trimBlanks text.toList = trimBlanks m) :
    (∃ o, Operator.read text = .ok o) ↔ longS ∉ trimBlanks m := by
  have hletters : ∀ o : Operator, longS ∉ o.keyword.toList ∧ 'k' ∉ o.keyword.toList := by
    intro o
    cases o <;> decide
  rw [Operator.exists_read_iff, htext]
  constructor
  · intro hread hmem
    obtain ⟨o, ho⟩ := hread
    apply (hletters o).1
    rw [← ho]
    exact List.mem_map_of_mem (f := Char.toLower) hmem
  · intro hlong
    obtain ⟨o, ho⟩ := h.exists_operator
    exact ⟨o, map_toLower_of_fold ho (hletters o).2 hlong⟩

end Keyword

/-! ### Tokens -/

/-- A token that is read as what it was recognised as. -/
structure Token.Decodes (t : Token) : Prop where
  name : t.kind = .name → (AttributePath.ofName t.text).Plain ∧
    (AttributePath.ofName t.text).render = t.text
  number : t.kind = .number → ∃ v, Value.ofNumber? t.text = some v
  logicalOperator : t.kind = .logicalOperator → ∃ o, LogicalOperator.read t.trimmed = .ok o
  comparisonOperator : t.kind = .comparisonOperator →
    ((∃ o, Operator.read t.trimmed = .ok o) ↔ longS ∉ t.trimmed.toList)
  string : t.kind = .string → ∃ content, '"' ∉ content ∧ t.text.toList = '"' :: (content ++ ['"'])

section
variable {mode : Mode} {t : Token} {ts : List Token}

/-- The text of a scanned token is what the recogniser of its kind finds. -/
theorem Scanned.recogniserOf (h : Scanned mode (t :: ts)) :
    ∃ rest, Recogniser.recogniserOf t.kind (t.text.toList ++ rest)
      = some (t.text.toList, rest) := by
  obtain ⟨rest, -, hlex⟩ := h.first
  exact ⟨rest, recogniserOf_of_lexeme? hlex⟩

/-- The keyword of an operator of a scan, with the text and with the trimmed text. -/
theorem Scanned.keyword (h : Scanned mode (t :: ts)) (hkind : t.kind ∈ keywordKinds) :
    ∃ rest, Keyword t.kind t.text.toList rest ∧
      trimBlanks t.trimmed.toList = trimBlanks t.text.toList := by
  obtain ⟨rest, hfound⟩ := h.recogniserOf
  have hkeyword := keyword_of_recogniserOf hkind hfound
  refine ⟨rest, hkeyword, ?_⟩
  rw [Token.trimmed, trimmed, String.toList_ofList]
  exact hkeyword.trimBlanks_trimBlanks

/-- The logical operators of a scan are read. -/
theorem Scanned.exists_read_logicalOperator (h : Scanned mode (t :: ts))
    (hkind : t.kind = .logicalOperator) : ∃ o, LogicalOperator.read t.text = .ok o := by
  obtain ⟨rest, hkeyword, -⟩ := h.keyword (by rw [hkind]; decide)
  rw [hkind] at hkeyword
  exact hkeyword.exists_read_logicalOperator rfl

/-- Every token of a scan decodes. -/
theorem Scanned.decodes (h : Scanned mode (t :: ts)) : t.Decodes := by
  obtain ⟨rest, hfound⟩ := h.recogniserOf
  constructor
  case name =>
    intro hkind
    rw [hkind] at hfound
    exact ⟨plain_ofName_of_name hfound, AttributePath.render_ofName t.text⟩
  case number =>
    intro hkind
    rw [hkind] at hfound
    obtain ⟨d, -, hvalue⟩ := ofNumber?_of_number hfound
    rw [String.ofList_toList] at hvalue
    rcases hvalue with hfloat | ⟨n, hinteger, -⟩
    · exact ⟨_, hfloat⟩
    · exact ⟨_, hinteger⟩
  case logicalOperator =>
    intro hkind
    obtain ⟨_, hkeyword, htrimmed⟩ := h.keyword (by rw [hkind]; decide)
    rw [hkind] at hkeyword
    exact hkeyword.exists_read_logicalOperator htrimmed
  case comparisonOperator =>
    intro hkind
    obtain ⟨_, hkeyword, htrimmed⟩ := h.keyword (by rw [hkind]; decide)
    rw [hkind] at hkeyword
    have htext : t.trimmed.toList = trimBlanks t.text.toList := String.toList_ofList
    rw [htext]
    exact hkeyword.exists_read_operator_iff htrimmed
  case string =>
    intro hkind
    rw [hkind] at hfound
    obtain ⟨content, hcontent, htext, -⟩ := string_eq_some_iff.mp hfound
    exact ⟨content, hcontent, htext⟩

end

end Scim
