import Scim.Parse.Attempt
import Scim.Token.Recogniser
import Scim.Token.Stream

/-!
# `Scim.Token.Scan`: dividing a text into tokens

At every place the first recogniser that succeeds gives the next token. Nothing is skipped: the
texts of the tokens, put together, are the text that was scanned. A place where no recogniser
succeeds is an error.

Part of an expression can be scanned on its own. Its tokens keep the offsets they have in the whole
expression, and its end counts as the end of the text.

* `lexeme?` is one token, by the table of recognisers. It is never empty (`lexeme?_splits`), and so
  the scan ends.
* `tokensFrom` is the scan of characters from an offset on. On failure it gives the place and the
  text that is left there.
* `scan` makes a stream of the tokens, or an error of the failure, and records each token. It also
  says that the tokens are not heavier than the text is long, which is what the readers need to scan
  the body of a group again.
-/

set_option autoImplicit false

namespace Scim

/-- The first token of a text: its kind, its characters and those after it. -/
def lexeme? (mode : Mode) (cs : List Char) : Option (TokenKind × List Char × List Char) :=
  (Recogniser.table mode).findSome? fun (kind, recognise) =>
    match recognise cs with
    | some (m, rest) => if m = [] then none else some (kind, m, rest)
    | none => none

/-- A token takes at least one character off the front of a text, and nothing is lost. -/
theorem lexeme?_splits {mode : Mode} {cs m rest : List Char} {kind : TokenKind}
    (h : lexeme? mode cs = some (kind, m, rest)) : m ++ rest = cs ∧ m ≠ [] := by
  obtain ⟨⟨kind', recognise⟩, hmem, h⟩ := List.exists_of_findSome?_eq_some h
  simp only at h
  split at h
  · next m' rest' hr =>
    split at h
    · contradiction
    · next hm =>
      simp only [Option.some.injEq, Prod.mk.injEq] at h
      obtain ⟨-, rfl, rfl⟩ := h
      exact ⟨Recogniser.table_splits mode _ hmem _ _ _ hr, hm⟩
  · contradiction

/-- What is left behind a token is shorter. Scanning ends because of this. -/
theorem length_lt_of_lexeme? {mode : Mode} {cs m rest : List Char} {kind : TokenKind}
    (h : lexeme? mode cs = some (kind, m, rest)) : rest.length < cs.length := by
  obtain ⟨h, hm⟩ := lexeme?_splits h
  rw [← h, List.length_append]
  have := List.length_pos_iff.mpr hm
  omega

/-- The tokens of a text whose first character is at the given offset, or the offset and the
characters where no token starts. -/
def tokensFrom (mode : Mode) (offset : Nat) (cs : List Char) :
    Except (Nat × List Char) (List Token) :=
  if cs = [] then .ok []
  else
    match h : lexeme? mode cs with
    | none => .error (offset, cs)
    | some (kind, m, rest) =>
      have := length_lt_of_lexeme? h
      -- The next token starts where this one stops.
      (tokensFrom mode (Token.mk kind (String.ofList m) offset).stop rest).map
        (⟨kind, String.ofList m, offset⟩ :: ·)
termination_by cs.length

/-- The tokens of a whole text weigh as much as it has characters. -/
theorem tokensWeight_tokensFrom {mode : Mode} {offset : Nat} {cs : List Char}
    {tokens : List Token} (h : tokensFrom mode offset cs = .ok tokens) :
    tokensWeight tokens = cs.length := by
  fun_induction tokensFrom mode offset cs generalizing tokens with
  | case1 => cases h; simp_all [tokensWeight]
  | case2 => contradiction
  | case3 offset cs hcs kind m rest hlex hlt ih =>
    generalize htoken : (⟨kind, String.ofList m, offset⟩ : Token) = token at h ih
    cases htail : tokensFrom mode token.stop rest with
    | error e => rw [htail] at h; contradiction
    | ok tail =>
      rw [htail] at h
      obtain rfl : token :: tail = tokens := by simpa [Except.map] using h
      obtain ⟨hsplit, hm⟩ := lexeme?_splits hlex
      have hpos := List.length_pos_iff.mpr hm
      -- A token of the scan is not empty, so it weighs as much as it has characters.
      have hweight : token.weight = m.length := by
        simp only [← htoken, Token.weight, String.length_ofList]
        omega
      rw [tokensWeight, hweight, ih htail, ← hsplit, List.length_append]

/-- How many characters of an unreadable text an error shows. -/
def fragmentLength : Nat := 10

/-- Scans part of an expression, which starts at the given offset. The stream of its tokens is no
heavier than the text. -/
def scan (mode : Mode) (source : String) (offset : Nat) (cs : List Char) :
    Attempt { s : TokenStream // s.weight ≤ cs.length } :=
  match h : tokensFrom mode offset cs with
  | .ok tokens => do
    Attempt.note (.scanned mode tokens.length (String.ofList cs))
    return ⟨TokenStream.make source tokens, Nat.le_of_eq (tokensWeight_tokensFrom h)⟩
  | .error (offset, rest) => do
    Attempt.note (.unscannable offset source)
    Attempt.fail (.unrecognizedInput (String.ofList (rest.take fragmentLength))
      (Location.locate source offset))

end Scim
