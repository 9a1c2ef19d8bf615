import Scim.Proofs.Token.Written

/-!
# `Scim.Proofs.Token.Spelling`: keywords that are spelled differently

Whoever writes an expression is free to write its keywords in either case and to put other blanks
around them. `squeezed` is what such texts have in common: lower case, and a single space for every
run of blanks. `Respells` says for each kind of token which texts it can have instead of its own.

Each recogniser looks a little past its token: at the next character, which must not belong to the
token. `Resembles` says that two texts look the same from there. Letters resemble each other and so
do blanks (`Alike`), since every class that a recogniser asks for has all letters or none, and all
blanks or none.

* `exists_blanks_of_squeezed` and `exists_word_of_squeezed` take a text apart by what it squeezes
  to: a space comes from a run of blanks, and anything else from the same letters in either case.
* `Resembles.unspaced` and `Resembles.endsWord` carry the two conditions on what follows a keyword
  from one text to the other.
* `Keyword.respelled` is the result. A keyword that is spelled differently is found again in front
  of any text that resembles the one behind it.

Case is about ASCII letters only (`eq_or_alpha_of_toLower_eq`). A long s is folded to an `s` where
keywords are recognised, but it has no other case here, so it is kept.
-/

set_option autoImplicit false

namespace Scim

open Text Recogniser

/-! ### Letters -/

/-- Only ASCII letters have another case. -/
theorem toLower_of_not_alpha {c : Char} (h : c.isAlpha = false) : c.toLower = c := by
  by_cases hascii : c.toNat < 128
  · have hall : ∀ c : Char, c.toNat < 128 → c.isAlpha = false → c.toLower = c :=
      forall_ascii (by decide +kernel)
    exact hall c hascii h
  · have hupper : ¬ (c.val ≥ 'A'.val ∧ c.val ≤ 'Z'.val) := by
      rintro ⟨-, hle⟩
      have hlt : c.val.toNat ≤ 90 := UInt32.le_iff_toNat_le.mp hle
      exact hascii (Nat.lt_of_le_of_lt hlt (by decide))
    unfold Char.toLower
    rw [dif_neg hupper]

/-- Letters are ASCII here. -/
theorem ascii_of_alpha {c : Char} (h : c.isAlpha = true) : c.toNat < 128 :=
  ascii_of_isAlphanum (by simp [Char.isAlphanum, h])

/-- The classes that an ASCII letter is in, whichever it is. -/
structure IsLetter (c : Char) : Prop where
  word : isWord c = true
  not_digit : c.isDigit = false
  not_blank : isBlank c = false
  name : isNameChar c = true
  foldCase_eq : foldCase c = c.toLower
  toLower_alpha : c.toLower.isAlpha = true

/-- An ASCII letter is in the classes of letters and in no other, which is checked for each of them.
-/
theorem isLetter_of_alpha {c : Char} (h : c.isAlpha = true) : IsLetter c := by
  have hall : ∀ c : Char, c.toNat < 128 → c.isAlpha = true →
      isWord c = true ∧ c.isDigit = false ∧ isBlank c = false ∧ isNameChar c = true ∧
        foldCase c = c.toLower ∧ c.toLower.isAlpha = true :=
    forall_ascii (by decide +kernel)
  obtain ⟨hword, hdigit, hblank, hname, hfold, hlower⟩ := hall c (ascii_of_alpha h) h
  exact ⟨hword, hdigit, hblank, hname, hfold, hlower⟩

/-- Lower case does not make a letter of what is none. -/
theorem isAlpha_toLower (c : Char) : c.toLower.isAlpha = c.isAlpha := by
  cases h : c.isAlpha with
  | false => rw [toLower_of_not_alpha h, h]
  | true => exact (isLetter_of_alpha h).toLower_alpha

/-- Characters that differ at most in their case are the same or both letters. -/
theorem eq_or_alpha_of_toLower_eq {c c' : Char} (h : c'.toLower = c.toLower) :
    c' = c ∨ (c.isAlpha = true ∧ c'.isAlpha = true) := by
  have hsame : c'.isAlpha = c.isAlpha := by rw [← isAlpha_toLower c', h, isAlpha_toLower]
  cases hc : c.isAlpha with
  | true => exact .inr ⟨rfl, hsame.trans hc⟩
  | false =>
      rw [toLower_of_not_alpha hc, toLower_of_not_alpha (hsame.trans hc)] at h
      exact .inl h

/-- Characters that differ in their case only are folded to the same. -/
theorem foldCase_eq_of_toLower_eq {c c' : Char} (h : c'.toLower = c.toLower) :
    foldCase c' = foldCase c := by
  rcases eq_or_alpha_of_toLower_eq h with rfl | ⟨hc, hc'⟩
  · rfl
  · rw [(isLetter_of_alpha hc).foldCase_eq, (isLetter_of_alpha hc').foldCase_eq, h]

/-- So are words. -/
theorem map_foldCase_eq_of_map_toLower_eq {w w' : List Char}
    (h : w'.map Char.toLower = w.map Char.toLower) : w'.map foldCase = w.map foldCase := by
  induction w generalizing w' with
  | nil => simpa using h
  | cons c w ih =>
      cases w' with
      | nil => simp at h
      | cons c' w' =>
          simp only [List.map_cons, List.cons.injEq] at h ⊢
          exact ⟨foldCase_eq_of_toLower_eq h.1, ih h.2⟩

/-! ### Texts up to their spelling -/

namespace Text

/-- A text in lower case and with a single space for every run of blanks. -/
def squeezed : List Char → List Char
  | [] => []
  | c :: cs =>
    if isBlank c then
      if cs.head?.any isBlank then squeezed cs else ' ' :: squeezed cs
    else c.toLower :: squeezed cs

/-- A character that is not blank is kept in lower case. -/
theorem squeezed_of_not_blank {c : Char} (hc : isBlank c = false) (cs : List Char) :
    squeezed (c :: cs) = c.toLower :: squeezed cs := by
  simp [squeezed, hc]

/-- A word without blanks is kept in lower case. -/
theorem squeezed_word {w : List Char} (hw : ∀ c ∈ w, isBlank c = false) (cs : List Char) :
    squeezed (w ++ cs) = w.map Char.toLower ++ squeezed cs := by
  induction w with
  | nil => rfl
  | cons c w ih =>
      rw [List.forall_mem_cons] at hw
      rw [List.cons_append, squeezed_of_not_blank hw.1, ih hw.2]
      rfl

/-- The last blank of a run is the one that counts. -/
theorem squeezed_blank {c : Char} (hc : isBlank c = true) {cs : List Char} (hcs : Unspaced cs) :
    squeezed (c :: cs) = ' ' :: squeezed cs := by
  have hhead : cs.head?.any isBlank = false := by
    cases cs with
    | nil => rfl
    | cons d cs => exact hcs d rfl
  simp [squeezed, hc, hhead]

/-- A run of blanks becomes a space. -/
theorem squeezed_blanks {run : List Char} (hrun : Blanks run) {cs : List Char}
    (hcs : Unspaced cs) : squeezed (run ++ cs) = ' ' :: squeezed cs := by
  obtain ⟨hne, hblank⟩ := hrun
  induction run with
  | nil => exact absurd rfl hne
  | cons c run ih =>
      rw [List.forall_mem_cons] at hblank
      cases run with
      | nil => exact squeezed_blank hblank.1 hcs
      | cons d run =>
          rw [← ih (by simp) hblank.2]
          simp [squeezed, hblank.1, hblank.2 d]

/-- Blanks at the end become a space, too. -/
theorem squeezed_run {run : List Char} (hrun : Blanks run) : squeezed run = [' '] := by
  have hnil : Unspaced [] := by simp [Unspaced]
  simpa [squeezed] using squeezed_blanks hrun hnil

/-- A text that starts with a blank starts with a space when it is squeezed. -/
theorem head?_squeezed_of_blank {c : Char} (hc : isBlank c = true) (cs : List Char) :
    (squeezed (c :: cs)).head? = some ' ' := by
  induction cs generalizing c with
  | nil => simp [squeezed, hc]
  | cons d cs ih =>
      rw [squeezed, if_pos hc]
      split
      · next hd => exact ih (by simpa using hd)
      · rfl

/-- Nothing disappears altogether. -/
theorem squeezed_eq_nil_iff {cs : List Char} : squeezed cs = [] ↔ cs = [] := by
  induction cs with
  | nil => simp [squeezed]
  | cons c cs ih =>
      rw [squeezed]
      split
      · split
        · next hblank =>
            rw [ih]
            cases cs <;> simp at hblank ⊢
        · simp
      · simp

/-- Only a space becomes a space in lower case, so no character that is kept can be taken for a run.
-/
theorem toLower_ne_space {c : Char} (hc : isBlank c = false) : c.toLower ≠ ' ' := by
  intro h
  have hspace : (' ').toLower = ' ' := by decide
  rcases eq_or_alpha_of_toLower_eq (c := ' ') (h.trans hspace.symm) with rfl | ⟨halpha, -⟩
  · exact absurd hc (by decide)
  · exact absurd halpha (by decide)

/-- A space comes from a run of blanks. -/
theorem exists_blanks_of_squeezed {cs ks : List Char} (h : squeezed cs = ' ' :: ks) :
    ∃ run tail, cs = run ++ tail ∧ Blanks run ∧ Unspaced tail ∧ squeezed tail = ks := by
  induction cs with
  | nil => simp [squeezed] at h
  | cons c cs ih =>
      rw [squeezed] at h
      split at h
      · next hc =>
          -- The run goes on if the next character is squeezed to the same space.
          split at h
          · obtain ⟨run, tail, rfl, hrun, htail, hks⟩ := ih h
            refine ⟨c :: run, tail, rfl, ⟨by simp, ?_⟩, htail, hks⟩
            exact List.forall_mem_cons.mpr ⟨hc, hrun.isBlank⟩
          · next hhead =>
              refine ⟨[c], cs, rfl, ⟨by simp, by simpa using hc⟩, ?_, (List.cons.inj h).2⟩
              intro d hd
              rw [hd] at hhead
              simpa using hhead
      · next hc => exact absurd (List.cons.inj h).1 (toLower_ne_space (by simpa using hc))

/-- Anything else comes from the same characters, up to their case. -/
theorem exists_word_of_squeezed {cs ws ks : List Char} (hws : ' ' ∉ ws)
    (h : squeezed cs = ws ++ ks) :
    ∃ w tail, cs = w ++ tail ∧ w.map Char.toLower = ws ∧ squeezed tail = ks := by
  induction ws generalizing cs with
  | nil => exact ⟨[], cs, rfl, rfl, h⟩
  | cons k ws ih =>
      rw [List.mem_cons, not_or] at hws
      cases cs with
      | nil => simp [squeezed] at h
      | cons c cs =>
          cases hc : isBlank c with
          | false =>
              rw [squeezed_of_not_blank hc] at h
              obtain ⟨hk, htail⟩ := List.cons.inj h
              obtain ⟨w, tail, rfl, hw, hks⟩ := ih hws.2 htail
              exact ⟨c :: w, tail, rfl, by rw [List.map_cons, hk, hw], hks⟩
          | true =>
              -- A blank would be squeezed to a space, and there is none in the word.
              have hhead := head?_squeezed_of_blank hc cs
              rw [h] at hhead
              exact absurd (Option.some.inj hhead).symm hws.1

/-- What squeezes to a space is a run of blanks. -/
theorem blanks_of_squeezed {cs : List Char} (h : squeezed cs = [' ']) : Blanks cs := by
  obtain ⟨run, tail, rfl, hrun, -, htail⟩ := exists_blanks_of_squeezed h
  rw [squeezed_eq_nil_iff.mp htail, List.append_nil]
  exact hrun

end Text

/-! ### Tokens up to their spelling -/

/-- A text that a token of this kind can have instead of its own. Letters of keywords can be in
either case, and blanks can be exchanged for others, for more or for fewer of them, but there is
only one in front of a comparison operator. The text of any other token stays. -/
def Respells (kind : TokenKind) (m m' : List Char) : Prop :=
  match kind with
  | .boolean | .null | .negation | .logicalOperator => squeezed m' = squeezed m
  | .comparisonOperator => squeezed m' = squeezed m ∧ Unspaced m'.tail
  | _ => m' = m

/-- It can be decided, since both texts can be squeezed. -/
instance (kind : TokenKind) (m m' : List Char) : Decidable (Respells kind m m') :=
  match kind with
  | .boolean | .null | .negation | .logicalOperator =>
    inferInstanceAs (Decidable (squeezed m' = squeezed m))
  | .comparisonOperator =>
    inferInstanceAs (Decidable (squeezed m' = squeezed m ∧ Unspaced m'.tail))
  | .number | .string | .parenOpen | .parenClose | .bracketOpen | .bracketClose | .name
  | .subAttribute => inferInstanceAs (Decidable (m' = m))

/-- Texts that are spelled differently squeeze to the same. -/
theorem Respells.squeezed_eq {kind : TokenKind} {m m' : List Char} (h : Respells kind m m') :
    squeezed m' = squeezed m := by
  cases kind with
  | boolean | null | negation | logicalOperator => exact h
  | comparisonOperator => exact h.1
  | number | string | parenOpen | parenClose | bracketOpen | bracketClose | name
    | subAttribute => exact congrArg squeezed h

/-- Tokens without a keyword can only be spelled as they are. -/
theorem Respells.eq_of_not_keyword {kind : TokenKind} {m m' : List Char}
    (h : Respells kind m m') (hkind : kind ∉ keywordKinds) : m' = m := by
  cases kind with
  | boolean | null | negation | logicalOperator | comparisonOperator =>
      exact absurd (by decide) hkind
  | number | string | parenOpen | parenClose | bracketOpen | bracketClose | name
    | subAttribute => exact h

/-- Characters that no recogniser tells apart behind its token: they are the same, both letters or
both blank. -/
def Alike (c c' : Char) : Prop :=
  c' = c ∨ (c.isAlpha = true ∧ c'.isAlpha = true) ∨ (isBlank c = true ∧ isBlank c' = true)

namespace Alike

variable {c c' : Char}

/-- A class that either has all letters or none, and all blanks or none. -/
theorem class_eq (h : Alike c c') {p : Char → Bool} {letters blanks : Bool}
    (hletters : ∀ c, IsLetter c → p c = letters) (hblanks : ∀ c, isBlank c = true → p c = blanks) :
    p c' = p c := by
  rcases h with rfl | ⟨hc, hc'⟩ | ⟨hc, hc'⟩
  · rfl
  · rw [hletters c (isLetter_of_alpha hc), hletters c' (isLetter_of_alpha hc')]
  · rw [hblanks c hc, hblanks c' hc']

/-- Alike characters are both word characters or none of them is. -/
theorem isWord_eq (h : Alike c c') : isWord c' = isWord c :=
  h.class_eq (fun _ hletter => hletter.word) fun _ hblank => (endsName_of_blank hblank).not_word

/-- They are both digits or none of them is. -/
theorem isDigit_eq (h : Alike c c') : c'.isDigit = c.isDigit :=
  h.class_eq (fun _ hletter => hletter.not_digit) fun _ hblank =>
    (endsName_of_blank hblank).not_digit

/-- They are both blank or none of them is. -/
theorem isBlank_eq (h : Alike c c') : isBlank c' = isBlank c :=
  h.class_eq (fun _ hletter => hletter.not_blank) fun _ hblank => hblank

/-- A character that is neither a letter nor blank is like itself only. -/
theorem eq_dot (h : Alike c '.') : c = '.' := by
  rcases h with rfl | ⟨-, hc'⟩ | ⟨-, hc'⟩
  · rfl
  · exact absurd hc' (by decide)
  · exact absurd hc' (by decide)

/-- If one of them ends every name, so does the other. -/
theorem endsName (h : Alike c c') (hc : EndsName c) : EndsName c' := by
  rcases h with rfl | ⟨halpha, -⟩ | ⟨-, hblank⟩
  · exact hc
  · exact absurd (isLetter_of_alpha halpha).name (by simp [hc.not_name])
  · exact endsName_of_blank hblank

/-- Characters that differ in their case only are alike. -/
theorem of_toLower_eq (h : c'.toLower = c.toLower) : Alike c c' := by
  rcases eq_or_alpha_of_toLower_eq h with rfl | halpha
  · exact .inl rfl
  · exact .inr (.inl halpha)

end Alike

/-- Texts that a recogniser does not tell apart behind its token. It looks at the first character,
and at the second one if the first one is a dot, which could be the point of a number. -/
inductive Resembles : List Char → List Char → Prop where
  | nil : Resembles [] []
  | cons {c c' : Char} {cs cs' : List Char} (h : Alike c c')
    (hdot : c = '.' → cs'.head? = cs.head?) : Resembles (c :: cs) (c' :: cs')

namespace Resembles

variable {cs cs' : List Char}

/-- A text resembles itself. -/
theorem refl (cs : List Char) : Resembles cs cs := by
  cases cs with
  | nil => exact .nil
  | cons c cs => exact .cons (.inl rfl) fun _ => rfl

/-- A class that does not tell the first characters apart holds of both or of none. -/
theorem forall_head (h : Resembles cs cs') {p : Char → Bool}
    (hp : ∀ c c', Alike c c' → p c' = p c) (hcs : ∀ c ∈ cs.head?, p c = false) :
    ∀ c' ∈ cs'.head?, p c' = false := by
  cases h with
  | nil => exact hcs
  | @cons c c' cs cs' h hdot =>
      intro d hd
      obtain rfl : c' = d := by simpa using hd
      rw [hp c c' h]
      exact hcs c rfl

/-- A text does not start with a blank if it resembles one that does not. -/
theorem unspaced (h : Resembles cs cs') (hcs : Unspaced cs) : Unspaced cs' :=
  h.forall_head (fun _ _ halike => halike.isBlank_eq) hcs

/-- A word ends in front of it if it does in front of the other one. -/
theorem endsWord (h : Resembles cs cs') (hcs : endsWord cs = true) : endsWord cs' = true := by
  cases h with
  | nil => rfl
  | cons h hdot =>
      show (!isWord _) = true
      rw [h.isWord_eq]
      exact hcs

end Resembles

/-! ### Keywords -/

section
variable {k : String} (hk : k ∈ keywords) {w : List Char} (hw : w.map foldCase = k.toList)

include hk hw

/-- The letters of a keyword in either case. -/
theorem exists_keyword_of_squeezed {cs more : List Char} (h : squeezed cs = squeezed (w ++ more)) :
    ∃ w' tail, cs = w' ++ tail ∧ w'.map foldCase = k.toList ∧ squeezed tail = squeezed more := by
  have hspace : ' ' ∉ w.map Char.toLower := by
    intro hmem
    obtain ⟨c, hc, hlower⟩ := List.mem_map.mp hmem
    exact toLower_ne_space (not_blank_of_keyword hk hw c hc) hlower
  rw [squeezed_word (not_blank_of_keyword hk hw)] at h
  obtain ⟨w', tail, rfl, hw', htail⟩ := exists_word_of_squeezed hspace h
  exact ⟨w', tail, rfl, (map_foldCase_eq_of_map_toLower_eq hw').trans hw, htail⟩

/-- What squeezes to the same as a keyword has the letters of the keyword. -/
theorem map_foldCase_of_squeezed {cs : List Char} (h : squeezed cs = squeezed w) :
    cs.map foldCase = k.toList := by
  rw [← List.append_nil w] at h
  obtain ⟨w', tail, rfl, hw', htail⟩ := exists_keyword_of_squeezed hk hw h
  rw [squeezed_eq_nil_iff.mp htail, List.append_nil]
  exact hw'

/-- What squeezes to the same as a keyword with blanks behind it is that keyword with blanks behind
it. -/
theorem exists_keyword_blanks_of_squeezed {cs run : List Char} (hrun : Blanks run)
    (h : squeezed cs = squeezed (w ++ run)) :
    ∃ w' run', cs = w' ++ run' ∧ w'.map foldCase = k.toList ∧ Blanks run' := by
  obtain ⟨w', run', rfl, hw', hrun'⟩ := exists_keyword_of_squeezed hk hw h
  rw [squeezed_run hrun] at hrun'
  exact ⟨w', run', rfl, hw', blanks_of_squeezed hrun'⟩

end

/-- In front of a comparison operator there is one blank and no more. -/
theorem exists_blank_of_squeezed {cs ks : List Char} (h : squeezed cs = ' ' :: ks)
    (htail : Unspaced cs.tail) :
    ∃ d tail, cs = d :: tail ∧ isBlank d = true ∧ squeezed tail = ks := by
  obtain ⟨run, rest, rfl, hrun, -, hks⟩ := exists_blanks_of_squeezed h
  obtain ⟨d, more, rfl⟩ := List.exists_cons_of_ne_nil hrun.ne_nil
  have hd := List.forall_mem_cons.mp hrun.isBlank
  -- A second blank would be at the start of the tail.
  cases more with
  | nil => exact ⟨d, rest, rfl, hd.1, hks⟩
  | cons e more =>
      have hblank := hd.2 e List.mem_cons_self
      rw [htail e rfl] at hblank
      contradiction

/-- There is a single blank in front of a comparison operator. -/
theorem Keyword.unspaced_tail {m rest : List Char} (h : Keyword .comparisonOperator m rest) :
    Unspaced m.tail := by
  cases h with
  | @binary k d w after rest hd hk hw hafter hunspaced =>
      have hkeyword : k ∈ keywords := (by decide : binaryKeywords ⊆ keywords) hk
      exact unspaced_of_keyword hkeyword hw after
  | @present d w rest hd hw hend =>
      simpa using unspaced_of_keyword (by decide : "pr" ∈ keywords) hw []

/-- A keyword that is spelled differently is still one, also in front of a text that it cannot tell
from the one it was in front of. -/
theorem Keyword.respelled {kind : TokenKind} {m m' rest rest' : List Char}
    (h : Keyword kind m rest) (hm : Respells kind m m') (hrest : Resembles rest rest') :
    Keyword kind m' rest' := by
  cases h with
  | @boolean k w rest hk hw hend =>
      have hkeyword : k ∈ keywords := (by decide : ["true", "false"] ⊆ keywords) hk
      exact .boolean hk (map_foldCase_of_squeezed hkeyword hw hm) (hrest.endsWord hend)
  | null hw hend =>
      have hkeyword : "null" ∈ keywords := by decide
      exact .null (map_foldCase_of_squeezed hkeyword hw hm) (hrest.endsWord hend)
  | negation hw hrun hunspaced =>
      have hkeyword : "not" ∈ keywords := by decide
      obtain ⟨w', run', rfl, hw', hrun'⟩ := exists_keyword_blanks_of_squeezed hkeyword hw hrun hm
      exact .negation hw' hrun' (hrest.unspaced hunspaced)
  | @logicalOperator k before w after rest hbefore hk hw hafter hunspaced =>
      have hkeyword : k ∈ keywords := (by decide : ["and", "or"] ⊆ keywords) hk
      have hsame : squeezed m' = ' ' :: squeezed (w ++ after) :=
        Eq.trans hm (squeezed_blanks hbefore (unspaced_of_keyword hkeyword hw after))
      obtain ⟨before', tail, rfl, hbefore', -, htail⟩ := exists_blanks_of_squeezed hsame
      obtain ⟨w', after', rfl, hw', hafter'⟩ :=
        exists_keyword_blanks_of_squeezed hkeyword hw hafter htail
      exact .logicalOperator hbefore' hk hw' hafter' (hrest.unspaced hunspaced)
  | @binary k d w after rest hd hk hw hafter hunspaced =>
      have hkeyword : k ∈ keywords := (by decide : binaryKeywords ⊆ keywords) hk
      have hsame : squeezed m' = ' ' :: squeezed (w ++ after) :=
        hm.1.trans (squeezed_blank hd (unspaced_of_keyword hkeyword hw after))
      obtain ⟨d', tail, rfl, hd', htail⟩ := exists_blank_of_squeezed hsame hm.2
      obtain ⟨w', after', rfl, hw', hafter'⟩ :=
        exists_keyword_blanks_of_squeezed hkeyword hw hafter htail
      exact .binary hd' hk hw' hafter' (hrest.unspaced hunspaced)
  | @present d w rest hd hw hend =>
      have hkeyword : "pr" ∈ keywords := by decide
      have hunspaced : Unspaced w := by
        simpa using unspaced_of_keyword hkeyword hw []
      have hsame : squeezed m' = ' ' :: squeezed w := hm.1.trans (squeezed_blank hd hunspaced)
      obtain ⟨d', tail, rfl, hd', htail⟩ := exists_blank_of_squeezed hsame hm.2
      exact .present hd' (map_foldCase_of_squeezed hkeyword hw htail) (hrest.endsWord hend)

end Scim
