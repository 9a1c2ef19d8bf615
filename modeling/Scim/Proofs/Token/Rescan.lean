import Mathlib.Data.String.Basic
import Scim.Proofs.Token.Delimiter

/-!
# `Scim.Proofs.Token.Rescan`: scanning a part again

`Scans` is scanning as a judgement: from an offset and a text to the tokens found and the text that
is left. Unlike `tokensFrom` it composes, and it can be taken apart at every token:

* `tokensFrom_eq_ok_iff` says that the two agree on whole texts, and `tokensFrom_eq_error_iff` what
  is left of a text where scanning fails.
* `Scans.append` and `Scans.of_append` put scans together and take them apart.
* `Scans.charsOf_append` says that nothing is lost, `Scans.offset_eq` and `Scans.stop_eq` where a
  token starts and ends: at the bytes in front of it, and at those up to its end.

A body between two parentheses is scanned on its own before it is read. `Scans.truncate` is the
step behind this: scanning does not depend on what is behind a parenthesis or bracket, so a scan
that is cut off there gives the same tokens. `Scans.extend` is its converse, and `Scans.between` is
the first of them used on what stands between two tokens.

The program cuts texts at byte offsets. `tokensBetween_parens` states the result for them, and
`extract_between` says that the characters of the tokens in a body are the characters between the
two offsets.
-/

set_option autoImplicit false

namespace Scim

open Recogniser

/-- From an offset and a text, these tokens are found and this text is left. -/
inductive Scans (mode : Mode) : Nat → List Char → List Token → List Char → Prop
  | done (offset : Nat) (cs : List Char) : Scans mode offset cs [] cs
  | step {offset : Nat} {cs m rest : List Char} {kind : TokenKind} {ts : List Token}
      {rest' : List Char} (hlex : lexeme? mode cs = some (kind, m, rest))
      (hrest : Scans mode (Token.mk kind (String.ofList m) offset).stop rest ts rest') :
      Scans mode offset cs (⟨kind, String.ofList m, offset⟩ :: ts) rest'

/-- One round of the loop. -/
theorem tokensFrom_of_lexeme? {mode : Mode} {cs m rest : List Char} {kind : TokenKind}
    (h : lexeme? mode cs = some (kind, m, rest)) (offset : Nat) :
    tokensFrom mode offset cs
      = (tokensFrom mode (Token.mk kind (String.ofList m) offset).stop rest).map
          (⟨kind, String.ofList m, offset⟩ :: ·) := by
  rw [tokensFrom, if_neg (ne_nil_of_lexeme? h)]
  split
  · next hnone => rw [h] at hnone; contradiction
  · next hsome =>
      rw [h] at hsome
      cases hsome
      rfl

/-- On a whole text, scanning as a judgement is scanning as a function. -/
theorem tokensFrom_eq_ok_iff {mode : Mode} {offset : Nat} {cs : List Char} {ts : List Token} :
    tokensFrom mode offset cs = .ok ts ↔ Scans mode offset cs ts [] := by
  constructor
  · intro h
    -- Each round of the loop is one step of the judgement.
    fun_induction tokensFrom mode offset cs generalizing ts with
    | case1 offset => cases h; exact .done offset []
    | case2 => contradiction
    | case3 offset cs hcs kind m rest hlex hlt ih =>
        cases htail : tokensFrom mode (Token.mk kind (String.ofList m) offset).stop rest with
        | error e => rw [htail] at h; contradiction
        | ok tail =>
            rw [htail] at h
            cases h
            exact .step hlex (ih htail)
  · intro h
    -- Nothing is left at the end, which the induction has to keep in mind.
    generalize hleft : ([] : List Char) = left at h
    induction h with
    | done offset cs => rw [← hleft, tokensFrom, if_pos rfl]
    | @step offset cs m rest kind ts rest' hlex hrest ih =>
        rw [tokensFrom_of_lexeme? hlex, ih hleft]
        rfl

/-- Scanning fails where some tokens have been found and no other one starts. -/
theorem tokensFrom_eq_error_iff {mode : Mode} {offset place : Nat} {cs rest : List Char} :
    tokensFrom mode offset cs = .error (place, rest) ↔
      ∃ ts, Scans mode offset cs ts rest ∧ place = offset + String.utf8Len (Token.charsOf ts) ∧
        rest ≠ [] ∧ lexeme? mode rest = none := by
  -- The first token moves the offset by its length.
  have hstop : ∀ (kind : TokenKind) (m : List Char) (offset : Nat) (ts : List Token),
      (Token.mk kind (String.ofList m) offset).stop + String.utf8Len (Token.charsOf ts)
        = offset + String.utf8Len
            (Token.charsOf (⟨kind, String.ofList m, offset⟩ :: ts)) := by
    intro kind m offset ts
    rw [Token.stop, Token.charsOf_cons, String.utf8Len_append, String.utf8ByteSize_ofList,
      String.toList_ofList, Nat.add_assoc]
  constructor
  · intro h
    fun_induction tokensFrom mode offset cs with
    | case1 => contradiction
    | case2 offset cs hcs hlex =>
        cases h
        exact ⟨[], .done _ _, rfl, hcs, hlex⟩
    | case3 offset cs hcs kind m after hlex hlt ih =>
        cases htail : tokensFrom mode (Token.mk kind (String.ofList m) offset).stop after with
        | ok tail => rw [htail] at h; contradiction
        | error e =>
            rw [htail] at h
            cases h
            obtain ⟨ts, hscan, hplace, hstopped⟩ := ih htail
            exact ⟨_, .step hlex hscan, hplace.trans (hstop kind m offset ts), hstopped⟩
  · rintro ⟨ts, hscan, rfl, hrest, hnone⟩
    induction hscan with
    | done offset cs =>
        rw [tokensFrom, if_neg hrest]
        split
        · rfl
        · next hsome => rw [hnone] at hsome; contradiction
    | @step offset cs m after kind ts rest hlex hscan ih =>
        rw [tokensFrom_of_lexeme? hlex, ih hrest hnone, hstop]
        rfl

namespace Scans

variable {mode : Mode} {offset : Nat} {cs rest : List Char} {ts us : List Token}

/-- Two scans in a row are a scan, if the second one starts where the first one has come to. -/
theorem append {offset' : Nat} {mid : List Char} (hfirst : Scans mode offset cs ts mid)
    (hoffset : offset' = offset + String.utf8Len (Token.charsOf ts))
    (hsecond : Scans mode offset' mid us rest) : Scans mode offset cs (ts ++ us) rest := by
  induction hfirst generalizing offset' with
  | done offset cs =>
      subst hoffset
      exact hsecond
  | @step offset cs m rest' kind ts mid hlex _ ih =>
      refine .step hlex (ih ?_ hsecond)
      rw [hoffset, Token.stop, Token.charsOf_cons, String.utf8Len_append,
        String.utf8ByteSize_ofList, String.toList_ofList, Nat.add_assoc]

/-- A scan can be divided after any of its tokens. -/
theorem of_append (h : Scans mode offset cs (ts ++ us) rest) :
    ∃ mid, Scans mode offset cs ts mid ∧
      Scans mode (offset + String.utf8Len (Token.charsOf ts)) mid us rest := by
  induction ts generalizing offset cs with
  | nil => exact ⟨cs, .done offset cs, h⟩
  | cons t ts ih =>
      cases h with
      | @step _ _ m mid kind _ _ hlex hrest =>
          obtain ⟨mid', hts, hus⟩ := ih hrest
          refine ⟨mid', .step hlex hts, ?_⟩
          rw [Token.charsOf_cons, String.utf8Len_append, String.toList_ofList,
            ← String.utf8ByteSize_ofList m, ← Nat.add_assoc]
          exact hus

/-- Nothing is lost: the texts of the tokens and the rest are the text. -/
theorem charsOf_append (h : Scans mode offset cs ts rest) : Token.charsOf ts ++ rest = cs := by
  induction h with
  | done => rfl
  | step hlex _ ih =>
      rw [Token.charsOf_cons, String.toList_ofList, List.append_assoc, ih]
      exact (lexeme?_splits hlex).1

/-- A token starts where the tokens before it end. -/
theorem offset_eq {t : Token} (h : Scans mode offset cs (ts ++ t :: us) rest) :
    t.offset = offset + String.utf8Len (Token.charsOf ts) := by
  obtain ⟨mid, -, ht⟩ := h.of_append
  cases ht
  rfl

/-- A token ends behind its own bytes and those of the tokens before it. -/
theorem stop_eq {t : Token} (h : Scans mode offset cs (ts ++ t :: us) rest) :
    t.stop = offset + String.utf8Len (Token.charsOf (ts ++ [t])) := by
  rw [Token.stop, h.offset_eq, Token.charsOf_append, String.utf8Len_append, Token.charsOf_cons,
    Token.charsOf_nil, List.append_nil, ← String.utf8ByteSize_ofList t.text.toList,
    String.ofList_toList, Nat.add_assoc]

/-- A token of a single parenthesis or bracket. -/
theorem text_eq_of_bracket {t : Token} {c : Char} (h : Scans mode offset cs (t :: ts) rest)
    (hc : (t.kind, c) ∈ decisive.dropLast) : t.text.toList = [c] := by
  cases h with
  | @step _ _ m mid kind _ _ hlex _ =>
      have hfound := recogniserOf_of_lexeme? hlex
      rw [recogniserOf_bracket hc] at hfound
      rw [String.toList_ofList]
      exact (exactly_eq_some_iff.mp hfound).1

/-- Scanning does not depend on what is behind a parenthesis or bracket: with the text cut off
there, the tokens in front of it are the same. -/
theorem truncate {d : Char} (hd : d ∈ brackets) {more : List Char}
    (h : Scans mode offset (cs ++ d :: more) ts (d :: more)) : Scans mode offset cs ts [] := by
  -- The scan ends at the cut; the induction is over its steps, with the text up to the cut free.
  generalize htext : cs ++ d :: more = text at h
  generalize hleft : d :: more = left at h
  induction h generalizing cs with
  | done offset =>
      subst hleft
      obtain rfl : cs = [] := by simpa using htext
      exact .done offset []
  | @step offset text m rest kind ts left hlex hscan ih =>
      subst hleft
      -- The token and those after it are the text up to the cut.
      have hrest := hscan.charsOf_append
      have hcs : cs = m ++ Token.charsOf ts := by
        have hsplit := (lexeme?_splits hlex).1
        rw [← hrest, ← htext, ← List.append_assoc] at hsplit
        exact (List.append_cancel_right hsplit).symm
      have hne : cs ≠ [] := by
        rw [hcs]
        simp [(lexeme?_splits hlex).2]
      rw [← htext, ← hrest] at hlex
      -- A string has been closed before the cut, because the token ends before it.
      have hclosed : cs.head? = some '"' → string cs ≠ none := by
        intro hhead
        obtain ⟨c, cs', rfl⟩ := List.exists_cons_of_ne_nil hne
        obtain rfl : c = '"' := by simpa using hhead
        obtain ⟨-, hstring⟩ :=
          (lexeme?_of_decisive mode (by decide : (.string, '"') ∈ decisive)).mp hlex
        obtain ⟨body, hbody, hm, -⟩ := string_eq_some_iff.mp hstring
        have hsome : string ('"' :: cs') = some (m, Token.charsOf ts) :=
          string_eq_some_iff.mpr ⟨body, hbody, hm, hcs⟩
        rw [hsome]
        exact Option.some_ne_none _
      -- So the first token is the same without the rest of the text, and the mode does not matter.
      rw [lexeme?_append_bracket mode hd hne hclosed] at hlex
      obtain ⟨found, hfilter, hfound⟩ := Option.map_eq_some_iff.mp hlex
      obtain ⟨kind', m', rest'⟩ := found
      simp only [extendLexeme, Prod.mk.injEq] at hfound
      obtain ⟨rfl, rfl, hfound⟩ := hfound
      obtain rfl : rest' = Token.charsOf ts := List.append_cancel_right hfound
      exact .step (lexeme?_mode (ne_subAttribute_of_lexeme? hfilter) hfilter) (ih hrest rfl)

/-- The other way round, a text that is scanned on its own is scanned alike in front of a
parenthesis or bracket. This is about filters alone: a sub-attribute has to be the end of the
text. -/
theorem extend {d : Char} (hd : d ∈ brackets) (h : Scans .filter offset cs ts [])
    (more : List Char) : Scans .filter offset (cs ++ d :: more) ts (d :: more) := by
  generalize hleft : ([] : List Char) = left at h
  induction h with
  | done offset cs =>
      subst hleft
      exact .done offset (d :: more)
  | @step offset cs m rest kind ts left hlex hscan ih =>
      -- A string at the front has been found as a token, so it is closed.
      have hclosed : cs.head? = some '"' → string cs ≠ none := by
        intro hhead
        obtain ⟨c, cs', rfl⟩ := List.exists_cons_of_ne_nil (ne_nil_of_lexeme? hlex)
        obtain rfl : c = '"' := by simpa using hhead
        obtain ⟨-, hstring⟩ :=
          (lexeme?_of_decisive .filter (by decide : (.string, '"') ∈ decisive)).mp hlex
        exact Option.ne_none_iff_exists'.mpr ⟨_, hstring⟩
      refine .step ?_ (ih hleft)
      rw [lexeme?_append_bracket .filter hd (ne_nil_of_lexeme? hlex) hclosed, hlex]
      rfl

/-- The tokens between a token and a closing parenthesis, scanned on their own. The first one need
not be the parenthesis that the last one closes. -/
theorem between {before body after : List Token} {opening closing : Token}
    (h : Scans mode offset cs (before ++ opening :: (body ++ closing :: after)) rest)
    (hclosing : closing.kind = .parenClose) :
    Scans mode opening.stop (Token.charsOf body) body [] := by
  have hstop := h.stop_eq
  rw [List.append_cons] at h
  obtain ⟨mid, -, hbody⟩ := h.of_append
  rw [← hstop] at hbody
  obtain ⟨mid', hbody, hrest⟩ := hbody.of_append
  -- What is left after the body starts with the closing parenthesis.
  have htext : closing.text.toList = [')'] := hrest.text_eq_of_bracket (by rw [hclosing]; decide)
  have hmid' := hrest.charsOf_append
  rw [Token.charsOf_cons, htext, List.append_assoc, List.singleton_append] at hmid'
  rw [← hbody.charsOf_append, ← hmid'] at hbody
  exact truncate (by decide) hbody

end Scans

/-! ### Offsets into a text -/

/-- The tokens of the part of a text between two byte offsets. -/
def tokensBetween (mode : Mode) (source : String) (start stop : String.Pos.Raw) :
    Except (Nat × List Char) (List Token) :=
  tokensFrom mode start.byteIdx (String.Pos.Raw.extract source start stop).toList

/-- Two offsets on boundaries of characters divide a text in three. -/
theorem exists_parts {source : String} {start stop : String.Pos.Raw} (hstart : start.IsValid source)
    (hstop : stop.IsValid source) (hle : start ≤ stop) :
    ∃ before part after, source = String.ofList (before ++ part ++ after) ∧
      start = ⟨String.utf8Len before⟩ ∧ stop = ⟨String.utf8Len before + String.utf8Len part⟩ := by
  obtain ⟨a, b, hab, rfl⟩ := String.Pos.Raw.isValid_iff_exists_append.mp hstart
  obtain ⟨a', b', hab', rfl⟩ := String.Pos.Raw.isValid_iff_exists_append.mp hstop
  have hsize : ∀ s : String, s.rawEndPos = ⟨String.utf8Len s.toList⟩ := by
    intro s
    rw [← String.rawEndPos_ofList, String.ofList_toList]
  have hle' : String.utf8Len a.toList ≤ String.utf8Len a'.toList := by
    rw [hsize, hsize] at hle
    exact hle
  have hsource : source.toList = a'.toList ++ b'.toList := by rw [hab', String.toList_append]
  have hlists := hsource
  rw [hab, String.toList_append] at hlists
  -- Both offsets divide the same text, so one division refines the other.
  rcases List.append_eq_append_iff.mp hlists with ⟨part, ha', -⟩ | ⟨part, ha, -⟩
  · refine ⟨a.toList, part, b'.toList, ?_, hsize a, ?_⟩
    · rw [← ha', ← hsource, String.ofList_toList]
    · rw [hsize, ha', String.utf8Len_append]
  · -- The second offset is not before the first, so the part between them is empty.
    rw [ha, String.utf8Len_append] at hle'
    obtain rfl : part = [] := String.utf8Len_eq_zero.mp (by omega)
    rw [List.append_nil] at ha
    refine ⟨a.toList, [], b'.toList, ?_, hsize a, ?_⟩
    · rw [List.append_nil, ha, ← hsource, String.ofList_toList]
    · rw [hsize, ha, String.utf8Len_nil, Nat.add_zero]

/-- Between two parentheses of a scan stand the characters of the tokens between them. -/
theorem extract_between {mode : Mode} {source : String} {start stop : String.Pos.Raw}
    (hstart : start.IsValid source) (hstop : stop.IsValid source) (hle : start ≤ stop)
    {before body after : List Token} {opening closing : Token}
    (h : tokensBetween mode source start stop
      = .ok (before ++ opening :: (body ++ closing :: after))) :
    String.Pos.Raw.extract source ⟨opening.stop⟩ ⟨closing.offset⟩
      = String.ofList (Token.charsOf body) := by
  obtain ⟨l, part, r, rfl, rfl, rfl⟩ := exists_parts hstart hstop hle
  have hscan := tokensFrom_eq_ok_iff.mp h
  rw [String.extract_of_valid, String.toList_ofList] at hscan
  have hpart := hscan.charsOf_append
  have hopening := hscan.stop_eq
  have hclosing : closing.offset = opening.stop + String.utf8Len (Token.charsOf body) := by
    rw [List.append_cons, ← List.append_assoc] at hscan
    rw [hscan.offset_eq, hopening, Token.charsOf_append _ body, String.utf8Len_append,
      Nat.add_assoc]
  rw [hclosing, hopening, ← String.utf8Len_append]
  -- In front of the body are the text before the range and the tokens up to the parenthesis.
  rw [← String.extract_of_valid (l ++ Token.charsOf (before ++ [opening])) (Token.charsOf body)
    (Token.charsOf (closing :: after) ++ r), ← hpart]
  simp only [Token.charsOf_append, Token.charsOf_cons, Token.charsOf_nil, List.append_nil,
    List.append_assoc]

/-- Scanning the body between two parentheses of a scan again gives the tokens that the scan has
between them, with the same offsets. -/
theorem tokensBetween_parens {mode : Mode} {source : String} {start stop : String.Pos.Raw}
    (hstart : start.IsValid source) (hstop : stop.IsValid source) (hle : start ≤ stop)
    {before body after : List Token} {opening closing : Token}
    (h : tokensBetween mode source start stop
      = .ok (before ++ opening :: (body ++ closing :: after)))
    (hclosing : closing.kind = .parenClose) :
    tokensBetween mode source ⟨opening.stop⟩ ⟨closing.offset⟩ = .ok body := by
  unfold tokensBetween
  rw [extract_between hstart hstop hle h, String.toList_ofList, tokensFrom_eq_ok_iff]
  exact (tokensFrom_eq_ok_iff.mp h).between hclosing

end Scim
