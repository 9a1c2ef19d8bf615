import Scim.Proofs.Parse.Likeness
import Scim.Proofs.Token.Partition
import Scim.Proofs.Token.Respelled

/-!
# `Scim.Proofs.Parse.Spelling`: the spelling of keywords does not matter

An expression means the same whether its keywords are written small or large and whatever blanks
there are around them. `parse_respelled` states this of both parsers and of any number of tokens at
once.

There are two ways in which the spelling could matter. The text could be divided differently, which
`Scim.Proofs.Token.Respelled` rules out. And the tokens could be read differently: operators and
literals are compared up to the case of ASCII letters only, while the scan accepts a long s as well.
But a token that is spelled differently keeps such letters, so it reads as before.

* `Keyword.map_toLower_trimBlanks`: between its blanks, another spelling has the same letters.
* `readKeyword_congr`: operators go by these letters.
* `readsLike_of_respelled`: so the token reads as before.
* `ignoresSpelling_of_readLike`: a parser that is described by its tokens, up to reading alike, does
  not see the spelling. The descriptions are the grammars of filters, of empty filters and of paths.
-/

set_option autoImplicit false

namespace Scim

open Text Recogniser

/-! ### What operators and literals are read as -/

namespace Text

/-- Without its spaces, a squeezed text is the text without its blanks. -/
theorem filter_squeezed (cs : List Char) :
    (squeezed cs).filter (· != ' ') = (cs.filter fun c => !isBlank c).map Char.toLower := by
  induction cs with
  | nil => rfl
  | cons c cs ih =>
      cases hc : isBlank c with
      | true =>
          rw [List.filter_cons_of_neg (by simp [hc]), ← ih, squeezed, if_pos hc]
          split
          · rfl
          · exact List.filter_cons_of_neg (by simp)
      | false =>
          have hne := toLower_ne_space hc
          rw [squeezed_of_not_blank hc, List.filter_cons_of_pos (by simpa using hne), ih,
            List.filter_cons_of_pos (by simp [hc]), List.map_cons]

/-- Nothing is dropped from a text that starts without a blank. -/
theorem dropWhile_of_unspaced {cs : List Char} (h : Unspaced cs) : cs.dropWhile isBlank = cs := by
  cases cs with
  | nil => rfl
  | cons c cs => simp [h c rfl]

/-- Trimming leaves the characters between the blanks. -/
theorem trimBlanks_between {before w after : List Char} (hbefore : ∀ c ∈ before, isBlank c = true)
    (hw : ∀ c ∈ w, isBlank c = false) (hne : w ≠ []) (hafter : ∀ c ∈ after, isBlank c = true) :
    trimBlanks (before ++ (w ++ after)) = w := by
  have hfront : Unspaced (w ++ after) := by
    intro c hc
    rw [List.head?_append_of_ne_nil _ hne] at hc
    exact hw c (List.mem_of_head? hc)
  have hback : Unspaced w.reverse := by
    intro c hc
    exact hw c (List.mem_reverse.mp (List.mem_of_head? hc))
  have hafter' : ∀ c ∈ after.reverse, isBlank c = true := by
    intro c hc
    exact hafter c (List.mem_reverse.mp hc)
  unfold trimBlanks
  rw [List.dropWhile_append_of_pos hbefore, dropWhile_of_unspaced hfront, List.reverse_append,
    List.dropWhile_append_of_pos hafter', dropWhile_of_unspaced hback, List.reverse_reverse]

end Text

namespace Keyword

variable {kind : TokenKind} {m m' rest : List Char}

/-- The text of a token with a keyword is the keyword with blanks around it, or without. -/
theorem exists_parts (h : Keyword kind m rest) :
    ∃ before w after, m = before ++ (w ++ after) ∧ (∀ c ∈ before, isBlank c = true) ∧
      (∀ c ∈ w, isBlank c = false) ∧ w ≠ [] ∧ ∀ c ∈ after, isBlank c = true := by
  have hletters : ∀ {k : String} {w : List Char}, k ∈ keywords → w.map foldCase = k.toList →
      (∀ c ∈ w, isBlank c = false) ∧ w ≠ [] := by
    intro k w hk hw
    obtain ⟨c, cs, rfl, -⟩ := exists_cons_of_keyword hk hw
    exact ⟨not_blank_of_keyword hk hw, by simp⟩
  cases h with
  | boolean hk hw hrest =>
      obtain ⟨hblank, hne⟩ := hletters ((by decide : ["true", "false"] ⊆ keywords) hk) hw
      exact ⟨[], m, [], by simp, by simp, hblank, hne, by simp⟩
  | null hw hrest =>
      obtain ⟨hblank, hne⟩ := hletters (by decide) hw
      exact ⟨[], m, [], by simp, by simp, hblank, hne, by simp⟩
  | @negation w run rest hw hrun hrest =>
      obtain ⟨hblank, hne⟩ := hletters (by decide) hw
      exact ⟨[], w, run, rfl, by simp, hblank, hne, hrun.isBlank⟩
  | @logicalOperator k before w after rest hbefore hk hw hafter hrest =>
      obtain ⟨hblank, hne⟩ := hletters ((by decide : ["and", "or"] ⊆ keywords) hk) hw
      exact ⟨before, w, after, rfl, hbefore.isBlank, hblank, hne, hafter.isBlank⟩
  | @binary k d w after rest hd hk hw hafter hrest =>
      obtain ⟨hblank, hne⟩ := hletters ((by decide : binaryKeywords ⊆ keywords) hk) hw
      exact ⟨[d], w, after, rfl, by simpa using hd, hblank, hne, hafter.isBlank⟩
  | @present d w rest hd hw hrest =>
      obtain ⟨hblank, hne⟩ := hletters (by decide) hw
      exact ⟨[d], w, [], by simp, by simpa using hd, hblank, hne, by simp⟩

/-- Trimming a keyword takes away all of its blanks, since there are none inside. -/
theorem trimBlanks_eq (h : Keyword kind m rest) :
    trimBlanks m = m.filter fun c => !isBlank c := by
  obtain ⟨before, w, after, rfl, hbefore, hw, hne, hafter⟩ := h.exists_parts
  have hkeep : w.filter (fun c => !isBlank c) = w := by
    rw [List.filter_eq_self]
    intro c hc
    simp [hw c hc]
  have hdrop : ∀ run : List Char, (∀ c ∈ run, isBlank c = true) →
      run.filter (fun c => !isBlank c) = [] := by
    intro run hrun
    rw [List.filter_eq_nil_iff]
    intro c hc
    simp [hrun c hc]
  rw [trimBlanks_between hbefore hw hne hafter, List.filter_append, List.filter_append, hkeep,
    hdrop before hbefore, hdrop after hafter, List.nil_append, List.append_nil]

/-- There are no blanks in a truth value. -/
theorem map_toLower_boolean (h : Keyword .boolean m rest) (hm : Respells .boolean m m') :
    m'.map Char.toLower = m.map Char.toLower := by
  have hsqueezed : ∀ {m : List Char}, Keyword .boolean m rest →
      squeezed m = m.map Char.toLower := by
    intro m h
    cases h with
    | boolean hk hw hrest =>
        have hkeyword := (by decide : ["true", "false"] ⊆ keywords) hk
        simpa [squeezed] using squeezed_word (not_blank_of_keyword hkeyword hw) []
  rw [← hsqueezed h, ← hsqueezed (h.respelled hm (.refl rest)), hm.squeezed_eq]

/-- Another spelling has the same letters between its blanks, up to ASCII case. -/
theorem map_toLower_trimBlanks (h : Keyword kind m rest) (hm : Respells kind m m') :
    (trimBlanks m').map Char.toLower = (trimBlanks m).map Char.toLower := by
  have h' := h.respelled hm (.refl rest)
  rw [h.trimBlanks_eq, h'.trimBlanks_eq, ← filter_squeezed, ← filter_squeezed, hm.squeezed_eq]

end Keyword

section
variable {text text' : String}
  (h : (trimBlanks text'.toList).map Char.toLower = (trimBlanks text.toList).map Char.toLower)

include h

/-- What is compared with a keyword are the letters between the blanks. -/
theorem sameIgnoringCase_trimmed_congr (keyword : String) :
    sameIgnoringCase keyword (trimmed text') = sameIgnoringCase keyword (trimmed text) := by
  simp [sameIgnoringCase, trimmed, h]

/-- An operator is read from any text with the same letters between its blanks. -/
theorem readKeyword_congr {α : Type} {all : List α} {keyword : α → String} {a : α}
    (hread : readKeyword all keyword text = .ok a) : readKeyword all keyword text' = .ok a := by
  rw [readKeyword_eq_ok_iff] at hread ⊢
  simpa only [sameIgnoringCase_trimmed_congr h] using hread

end

/-- A token of a scan that is spelled differently reads like the original. -/
theorem readsLike_of_respelled {t t' : Token}
    (hkeyword : t.kind ∈ keywordKinds → ∃ rest, Keyword t.kind t.text.toList rest)
    (hkind : t'.kind = t.kind) (htext : t.RespeltAs t'.text) : t.ReadsLike t' := by
  have hsame : t.kind ∉ keywordKinds → t'.text = t.text := by
    intro hnot
    exact String.toList_injective (Respells.eq_of_not_keyword htext hnot)
  have htrimmed : t.kind ∈ keywordKinds → (trimBlanks t'.text.toList).map Char.toLower
      = (trimBlanks t.text.toList).map Char.toLower := by
    intro hmem
    obtain ⟨rest, h⟩ := hkeyword hmem
    exact h.map_toLower_trimBlanks htext
  -- Names keep their text, and operators keep the letters between their blanks.
  refine ⟨hkind, ?_, ?_, ?_, ?_⟩
  · intro hname
    apply hsame
    rcases hname with hname | hname <;> rw [hname] <;> decide
  · intro hoperator o hread
    exact readKeyword_congr (htrimmed (by rw [hoperator]; decide)) hread
  · intro hoperator o hread
    exact readKeyword_congr (htrimmed (by rw [hoperator]; decide)) hread
  · unfold Token.literal?
    rw [hkind]
    cases hk : t.kind with
    | string | number => rw [hsame (by rw [hk]; decide)]
    | boolean =>
        obtain ⟨rest, h⟩ := hkeyword (by rw [hk]; decide)
        have hrespells : Respells t.kind t.text.toList t'.text.toList := htext
        rw [hk] at h hrespells
        simp [sameIgnoringCase, h.map_toLower_boolean hrespells]
    | null | parenOpen | parenClose | bracketOpen | bracketClose | negation | logicalOperator
      | comparisonOperator | name | subAttribute => rfl

/-- The tokens of a text that is spelled differently read like those of the original. -/
theorem Scans.readLike {mode : Mode} {offset : Nat} {cs rest : List Char} {ts ts' : List Token}
    (h : Scans mode offset cs ts rest) (hkinds : ts'.map (·.kind) = ts.map (·.kind))
    (htexts : List.Forall₂ Token.RespeltAs ts (ts'.map (·.text))) : ReadLike ts ts' := by
  induction h generalizing ts' with
  | done =>
      obtain rfl : ts' = [] := by simpa using hkinds
      exact .nil
  | @step offset cs m rest kind ts rest' hlex hscan ih =>
      cases ts' with
      | nil => simp at hkinds
      | cons t' ts' =>
          obtain ⟨hkind, hkinds⟩ := List.cons.inj hkinds
          obtain ⟨htext, htexts⟩ := List.forall₂_cons.mp htexts
          refine .cons (readsLike_of_respelled ?_ hkind htext) (ih hkinds htexts)
          intro hmem
          refine ⟨rest, ?_⟩
          rw [String.toList_ofList]
          exact keyword_of_recogniserOf hmem (recogniserOf_of_lexeme? hlex)

/-! ### The result -/

/-- A text that is spelled differently is divided into tokens of the same kinds, with these texts,
and they read like the tokens of the original. -/
theorem tokenize_respelled {mode : Mode} {input : String} {tokens : List Token}
    (h : tokenize mode input = .ok tokens) {texts : List String}
    (htexts : List.Forall₂ Token.RespeltAs tokens texts) :
    ∃ tokens', tokenize mode (String.join texts) = .ok tokens' ∧
      tokens'.map (·.kind) = tokens.map (·.kind) ∧ tokens'.map (·.text) = texts ∧
      ReadLike tokens tokens' := by
  have hscan := tokenize_eq_ok_iff.mp h
  obtain ⟨-, tokens', hscan', hkinds, rfl⟩ := hscan.respelled htexts 0
  refine ⟨tokens', ?_, hkinds, rfl, hscan.readLike hkinds htexts⟩
  rw [tokenize_eq_ok_iff, String.toList_join]
  exact hscan'

/-- However the tokens of a text are spelled, all or only some of them, the text is divided into
tokens of the same kinds, and the parser makes the same of it. -/
def IgnoresSpelling {α : Type} (mode : Mode) (parse : String → Except ParseError α)
    (input : String) (x : α) : Prop :=
  ∃ tokens, tokenize mode input = .ok tokens ∧ (∀ t ∈ tokens, t.RespeltAs t.text) ∧
    ∀ texts, List.Forall₂ Token.RespeltAs tokens texts →
      (∃ tokens', tokenize mode (String.join texts) = .ok tokens' ∧
        tokens'.map (·.kind) = tokens.map (·.kind) ∧ tokens'.map (·.text) = texts) ∧
      parse (String.join texts) = .ok x

/-- A parser ignores the spelling of a text if it only asks for something that holds alike of tokens
that read alike. -/
theorem ignoresSpelling_of_readLike {α : Type} {mode : Mode}
    {parse : String → Except ParseError α} {x : α} {P : List Token → Prop}
    (hparse : ∀ input, parse input = .ok x ↔
      ∃ tokens, tokensFrom mode 0 input.toList = .ok tokens ∧ P tokens)
    (hP : ∀ {ts ts'}, P ts → ReadLike ts ts' → P ts') {input : String}
    (h : parse input = .ok x) : IgnoresSpelling mode parse input x := by
  obtain ⟨tokens, hfrom, hread⟩ := (hparse input).mp h
  have hscan := tokenize_eq_ok_iff_tokensFrom.mpr hfrom
  refine ⟨tokens, hscan, (tokenize_eq_ok_iff.mp hscan).respeltAs_text, ?_⟩
  intro texts htexts
  obtain ⟨tokens', hscan', hkinds, htexts', hlike⟩ := tokenize_respelled hscan htexts
  refine ⟨⟨tokens', hscan', hkinds, htexts'⟩, ?_⟩
  exact (hparse _).mpr ⟨tokens', tokenize_eq_ok_iff_tokensFrom.mp hscan', hP hread hlike⟩

/-- The parser of filters, described by the tokens of a text. -/
theorem parseFilter_eq_ok_some_iff {input : String} {n : Node} :
    parseFilter input = .ok (some n) ↔
      ∃ tokens, tokensFrom .filter 0 input.toList = .ok tokens ∧
        ∃ ts us, tokens = ts ++ us ∧ EndsBefore us ∧ Derives .expression false ts n := by
  constructor
  · intro h
    obtain ⟨ts, us, hscan, hends, hderives⟩ := derives_of_parseFilter h
    exact ⟨ts ++ us, hscan, ts, us, rfl, hends, hderives⟩
  · rintro ⟨_, hscan, ts, us, rfl, hends, hderives⟩
    exact parseFilter_of_derives hscan hends hderives

/-- An expression that is accepted can be spelled differently. Any number of its keywords can be
written in another case and with other blanks around them: the text still scans to tokens of the
same kinds, all other tokens have the same texts as before, and the result is the same. -/
theorem parse_respelled (input : String) :
    (∀ node?, parseFilter input = .ok node? → IgnoresSpelling .filter parseFilter input node?) ∧
    ∀ e, parsePath input = .ok e → IgnoresSpelling .path parsePath input e := by
  constructor
  · intro node? h
    cases node? with
    | none =>
        exact ignoresSpelling_of_readLike (fun _ => parseFilter_eq_ok_none_iff_startsEmpty)
          StartsEmpty.of_readsLike h
    | some n =>
        refine ignoresSpelling_of_readLike (fun _ => parseFilter_eq_ok_some_iff) ?_ h
        rintro _ _ ⟨ts, us, rfl, hends, hderives⟩ hlike
        obtain ⟨ts', us', hts, hus, rfl⟩ := readLike_append hlike
        exact ⟨ts', us', rfl, hends.of_readsLike hus, hderives.of_readsLike hts⟩
  · intro e h
    exact ignoresSpelling_of_readLike (fun input => parsePath_eq_ok_iff_derives input e)
      DerivesPath.of_readsLike h

/-- All sorts of blanks and keywords in mixed case, and a long s in a truth value and in tokens that
are ignored. The text is a filter and a path. -/
theorem parse_respelled_blanks :
    ∃ n e, ∀ s ∈ ["emails[not (a pr\"x\"b ſw 1) and c eq falſe]",
        "emails[NOT\u3000\t(a\nPr\"x\"b\u00A0ſW  1)\t AND\nc\tEq FALſE]"],
      parseFilter s = .ok (some n) ∧ parsePath s = .ok e := by
  let s := "emails[not (a pr\"x\"b ſw 1) and c eq falſe]"
  let n : Node := .connective .and [
    .negation (.comparison (.present ⟨none, "emails", ["a"]⟩)),
    .comparison (.make ⟨none, "emails", ["c"]⟩ .eq (some (.boolean false)))]
  let tokens : List Token := [⟨.name, "emails", 0⟩, ⟨.bracketOpen, "[", 6⟩, ⟨.negation, "not ", 7⟩,
    ⟨.parenOpen, "(", 11⟩, ⟨.name, "a", 12⟩, ⟨.comparisonOperator, " pr", 13⟩,
    ⟨.string, "\"x\"", 16⟩, ⟨.name, "b", 19⟩, ⟨.comparisonOperator, " ſw ", 20⟩,
    ⟨.number, "1", 25⟩, ⟨.parenClose, ")", 26⟩, ⟨.logicalOperator, " and ", 27⟩, ⟨.name, "c", 32⟩,
    ⟨.comparisonOperator, " eq ", 33⟩, ⟨.boolean, "falſe", 37⟩, ⟨.bracketClose, "]", 43⟩]
  let texts := ["emails", "[", "NOT\u3000\t", "(", "a", "\nPr", "\"x\"", "b", "\u00A0ſW  ", "1",
    ")", "\t AND\n", "c", "\tEq ", "FALſE", "]"]
  have hfilter : parseFilter s = .ok (some (.valuePath (.ofSingle "emails") n none)) := by
    decide +kernel
  have hpath : parsePath s = .ok (.value (.make (.ofSingle "emails") n)) := by decide +kernel
  have hscan : ∀ mode, tokenize mode s = .ok tokens := by
    intro mode
    cases mode <;> decide +kernel
  have htexts : List.Forall₂ Token.RespeltAs tokens texts := by
    have hall : ∀ pair ∈ tokens.zip texts, pair.1.RespeltAs pair.2 := by decide +kernel
    exact List.forall₂_iff_zip.mpr ⟨rfl, fun hmem => hall _ hmem⟩
  obtain ⟨_, hfound, -, hsame⟩ := (parse_respelled s).1 _ hfilter
  obtain ⟨_, hfound', -, hsame'⟩ := (parse_respelled s).2 _ hpath
  rw [hscan] at hfound hfound'
  cases hfound
  cases hfound'
  refine ⟨_, _, List.forall_mem_cons.mpr ⟨⟨hfilter, hpath⟩, List.forall_mem_singleton.mpr ?_⟩⟩
  exact ⟨(hsame texts htexts).2, (hsame' texts htexts).2⟩

-- Only the number of blanks in front of a comparison operator is not free.
example : (parseFilter "a pr").isOk = true ∧ (parseFilter "a  pr").isOk = false := by decide +kernel

end Scim
