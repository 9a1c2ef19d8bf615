import Mathlib.Data.List.Chain
import Scim.Proofs.Location
import Scim.Proofs.Token.SubAttribute

/-!
# `Scim.Proofs.Token.Partition`: what a scan makes of a text

`tokenize` is the scan of a whole text. It either divides the text or stops at a place where no
token starts, and both can be said with `Scans` (`tokenize_eq_ok_iff`, `tokenize_eq_error_iff`): in
one case nothing is left, in the other something is.

Dividing a text means that nothing is lost and nothing is read twice. `Partition` states this for
the tokens of a text, by their texts and by their offsets, and `Scans.partition` proves it. All of
it goes back to two facts: a token is never empty, and it starts where those before it end.

The scans of a text as a filter and as a path find the same tokens for as long as the first one goes
on:

* `tokenize_path_eq_ok`: where a filter stops at a dotted name that is the end of the text, the path
  has one more token, the sub-attribute.
* `tokenize_path_eq_error`: where it stops at anything else, the path stops at the same place.

`tokenize_divides` puts both parts together.
-/

set_option autoImplicit false

namespace Scim

open Recogniser

/-- The tokens of a whole text, or the reason why it cannot be divided into tokens. -/
def tokenize (mode : Mode) (source : String) : Except ParseError (List Token) :=
  (scan mode source 0 source.toList).outcome.map fun s => s.val.tokens

/-- The error that no token starts at an offset, where these characters are left. -/
def unreadable (source : String) : Nat × List Char → ParseError
  | (offset, rest) =>
    .unrecognizedInput (String.ofList (rest.take fragmentLength)) (Location.locate source offset)

/-- The scan of a whole text starts at offset zero, and its error says where it stops. -/
theorem tokenize_eq (mode : Mode) (source : String) :
    tokenize mode source
      = (tokensFrom mode 0 source.toList).mapError (unreadable source) := by
  unfold tokenize scan
  split
  · next h => exact (congrArg (Except.mapError (unreadable source)) h).symm
  · next h => exact (congrArg (Except.mapError (unreadable source)) h).symm

/-- Unless it stops, the scan of a whole text gives the tokens of its characters. -/
theorem tokenize_eq_ok_iff_tokensFrom {mode : Mode} {source : String} {tokens : List Token} :
    tokenize mode source = .ok tokens ↔ tokensFrom mode 0 source.toList = .ok tokens := by
  rw [tokenize_eq]
  cases tokensFrom mode 0 source.toList <;> simp [Except.mapError]

/-- A text is divided into tokens if the scan leaves nothing. -/
theorem tokenize_eq_ok_iff {mode : Mode} {source : String} {tokens : List Token} :
    tokenize mode source = .ok tokens ↔ Scans mode 0 source.toList tokens [] :=
  tokenize_eq_ok_iff_tokensFrom.trans tokensFrom_eq_ok_iff

/-- Otherwise the scan stops where text is left and no token starts. The error is about that place.
-/
theorem tokenize_eq_error_iff {mode : Mode} {source : String} {e : ParseError} :
    tokenize mode source = .error e ↔
      ∃ found rest, Scans mode 0 source.toList found rest ∧ rest ≠ [] ∧
        lexeme? mode rest = none ∧
        e = unreadable source (String.utf8Len (Token.charsOf found), rest) := by
  rw [tokenize_eq]
  constructor
  · intro h
    cases hfrom : tokensFrom mode 0 source.toList with
    | ok tokens => rw [hfrom] at h; contradiction
    | error stopped =>
        obtain ⟨place, rest⟩ := stopped
        rw [hfrom] at h
        cases h
        obtain ⟨found, hscan, hplace, hrest, hnone⟩ := tokensFrom_eq_error_iff.mp hfrom
        rw [Nat.zero_add] at hplace
        exact ⟨found, rest, hscan, hrest, hnone, by rw [← hplace]⟩
  · rintro ⟨found, rest, hscan, hrest, hnone, rfl⟩
    rw [tokensFrom_eq_error_iff.mpr ⟨found, hscan, rfl, hrest, hnone⟩, Nat.zero_add]
    rfl

/-! ### Dividing a text -/

/-- Tokens that divide a text: none is empty, the first one is at the start of the text and every
other one where the token before it ends, no character is cut in two, and the texts of the tokens
are the text. -/
structure Partition (source : String) (tokens : List Token) : Prop where
  text_ne_empty : ∀ t ∈ tokens, t.text ≠ ""
  offset_head : ∀ t ∈ tokens.head?, t.offset = 0
  adjacent : tokens.IsChain fun t next => next.offset = t.stop
  isValid_offset : ∀ t ∈ tokens, (⟨t.offset⟩ : String.Pos.Raw).IsValid source
  join_texts : String.join (tokens.map (·.text)) = source

namespace Scans

variable {mode : Mode} {offset : Nat} {cs rest : List Char} {ts : List Token}

/-- No token of a scan is empty. -/
theorem text_ne_empty (h : Scans mode offset cs ts rest) : ∀ t ∈ ts, t.text ≠ "" := by
  induction h with
  | done => simp
  | @step offset cs m rest kind ts rest' hlex hscan ih =>
      rw [List.forall_mem_cons]
      refine ⟨?_, ih⟩
      simpa using (lexeme?_splits hlex).2

/-- Each token starts where the one before it ends. -/
theorem adjacent (h : Scans mode offset cs ts rest) :
    (∀ t ∈ ts.head?, t.offset = offset) ∧ ts.IsChain fun t next => next.offset = t.stop := by
  induction h with
  | done => simp
  | @step offset cs m rest kind ts rest' hlex hscan ih =>
      -- The scan goes on at the end of the token, so that is where the next one starts.
      exact ⟨by simp, List.isChain_cons.mpr ih⟩

/-- The tokens of a whole text divide it. -/
theorem partition {source : String} (h : Scans mode 0 source.toList ts []) :
    Partition source ts where
  text_ne_empty := h.text_ne_empty
  offset_head := h.adjacent.1
  adjacent := h.adjacent.2
  isValid_offset := by
    intro t ht
    obtain ⟨before, after, rfl⟩ := List.append_of_mem ht
    have hchars := h.charsOf_append
    rw [List.append_nil, Token.charsOf_append] at hchars
    rw [h.offset_eq, Nat.zero_add]
    exact isValid_of_toList_eq hchars.symm
  join_texts := by
    have hchars := h.charsOf_append
    rw [List.append_nil] at hchars
    apply String.toList_injective
    rw [String.toList_join, List.flatMap_map]
    exact hchars

end Scans

/-! ### Filters and paths -/

/-- A dot and a name, and nothing behind them. -/
def IsDottedName (text : String) : Prop :=
  ∃ x, text.toList = '.' :: x ∧ x ≠ [] ∧ ∀ c ∈ x, isNameChar c = true

section
variable {source : String} {found : List Token} {rest : List Char}
  (hscan : Scans .filter 0 source.toList found rest)

include hscan

/-- Where a filter stops, a path may end in a sub-attribute. -/
theorem tokenize_path_eq_ok (hrest : IsDottedName (String.ofList rest)) :
    tokenize .path source = .ok (found ++
      [⟨.subAttribute, String.ofList rest, String.utf8Len (Token.charsOf found)⟩]) := by
  obtain ⟨x, hdot, hne, hx⟩ := hrest
  rw [String.toList_ofList] at hdot
  subst hdot
  have hsub : Scans .path (0 + String.utf8Len (Token.charsOf found)) ('.' :: x)
      [⟨.subAttribute, String.ofList ('.' :: x), 0 + String.utf8Len (Token.charsOf found)⟩] [] :=
    .step (lexeme?_subAttribute hne hx) (.done _ [])
  rw [tokenize_eq_ok_iff]
  simpa using hscan.in_path.append rfl hsub

/-- Otherwise it stops at the same place. -/
theorem tokenize_path_eq_error (hne : rest ≠ []) (hnone : lexeme? .filter rest = none)
    (hrest : ¬ IsDottedName (String.ofList rest)) :
    tokenize .path source
      = .error (unreadable source (String.utf8Len (Token.charsOf found), rest)) := by
  have hsub : subAttribute rest = none := by
    rw [Option.eq_none_iff_forall_ne_some]
    rintro ⟨m, after⟩ hsome
    obtain ⟨-, -, hdotted⟩ := subAttribute_eq_some_iff.mp hsome
    rw [← String.toList_ofList (l := rest)] at hdotted
    exact hrest hdotted
  have hpath : lexeme? .path rest = none := by
    rw [lexeme?_path, hnone]
    show (subAttribute rest).map _ = none
    rw [hsub]
    rfl
  exact tokenize_eq_error_iff.mpr ⟨found, rest, hscan.in_path, hne, hpath, rfl⟩

end

/-- A scan that succeeds divides the text, and only the end of the text can depend on the mode.

1. In either mode, the tokens of a text divide it.
2. The tokens of a filter are also those of the text as a path.
3. Where the scan of a filter stops, some tokens have been found in front of that place. If a dot
   and a name are all that is left, these tokens and a sub-attribute are those of the text as a
   path. Otherwise the text as a path is refused with the same error. -/
theorem tokenize_divides (source : String) :
    (∀ mode tokens, tokenize mode source = .ok tokens → Partition source tokens) ∧
    (∀ tokens, tokenize .filter source = .ok tokens → tokenize .path source = .ok tokens) ∧
    ∀ e, tokenize .filter source = .error e →
      ∃ (place : Location) (found : List Token), e.location? = some place ∧
        (⟨place.position⟩ : String.Pos.Raw).IsValid source ∧
        Scans .filter 0 source.toList found (textFrom source place.position).toList ∧
        (IsDottedName (textFrom source place.position) →
          tokenize .path source = .ok (found ++
            [⟨.subAttribute, textFrom source place.position, place.position⟩])) ∧
        (¬ IsDottedName (textFrom source place.position) → tokenize .path source = .error e) := by
  refine ⟨fun mode tokens h => (tokenize_eq_ok_iff.mp h).partition, ?_, ?_⟩
  · intro tokens h
    exact tokenize_eq_ok_iff.mpr (tokenize_eq_ok_iff.mp h).in_path
  · intro e h
    obtain ⟨found, rest, hscan, hne, hnone, rfl⟩ := tokenize_eq_error_iff.mp h
    obtain ⟨hposition, -, hvalid, hrest⟩ := locate_between hscan.charsOf_append.symm rfl
    have htext := String.toList_injective (hrest.trans (String.toList_ofList (l := rest)).symm)
    refine ⟨_, found, rfl, hvalid, ?_, ?_, ?_⟩
    · rw [hrest]
      exact hscan
    · rw [htext, hposition]
      exact tokenize_path_eq_ok hscan
    · rw [htext]
      exact tokenize_path_eq_error hscan hne hnone

/-- The sub-attribute of a path stands at byte 15 here, which is the 14th character. -/
theorem tokenize_divides_multibyte :
    tokenize .filter "é:a[b eq \"ü\"].v-1" = .error (.unrecognizedInput ".v-1" ⟨1, 14, 15⟩) ∧
    ∃ found, Scans .filter 0 "é:a[b eq \"ü\"].v-1".toList found ".v-1".toList ∧
      tokenize .path "é:a[b eq \"ü\"].v-1" = .ok (found ++ [⟨.subAttribute, ".v-1", 15⟩]) ∧
      Partition "é:a[b eq \"ü\"].v-1" (found ++ [⟨.subAttribute, ".v-1", 15⟩]) := by
  obtain ⟨hdivides, -, hstops⟩ := tokenize_divides "é:a[b eq \"ü\"].v-1"
  have hfilter : tokenize .filter "é:a[b eq \"ü\"].v-1"
      = .error (.unrecognizedInput ".v-1" ⟨1, 14, 15⟩) := by decide +kernel
  have hleft : textFrom "é:a[b eq \"ü\"].v-1" 15 = ".v-1" := by decide +kernel
  have hdotted : IsDottedName ".v-1" :=
    ⟨['v', '-', '1'], by decide, by decide, List.all_eq_true.mp (by decide)⟩
  obtain ⟨_, found, ⟨rfl⟩, -, hscan, hpath, -⟩ := hstops _ hfilter
  simp only [hleft] at hscan hpath
  exact ⟨hfilter, found, hscan, hpath hdotted, hdivides _ _ (hpath hdotted)⟩

end Scim
