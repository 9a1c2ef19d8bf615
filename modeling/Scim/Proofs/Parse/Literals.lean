import Scim.Proofs.Parse.Accepted
import Scim.Proofs.Parse.RoundTrip
import Scim.Proofs.Token.Partition

/-!
# `Scim.Proofs.Parse.Literals`: literals are written back

Every literal of a scan has a value, and the text of the value should be a literal again, of the
same kind and with the same value. Strings, truth values, `null` and integers all are, and so is a
float that is finite.

Digits may stand for a number that is too great for a float, though. Such a number is infinite, and
the text of infinity is `inf`, which is a name. `Token.Overflows` tells these numbers by their
digits, and `tokenize_render_literal` says what becomes of a literal in either case.

* `Scanned.number_value`: a number is an integer of 64 bits, a finite float, or infinite, and it is
  infinite exactly if it overflows. The bound is that of rounding, from `Scim.Proofs.Number.Range`.
* `Scanned.literal_value`: the same for all literals, in terms of what can be written.
* `lexeme?_literal`, of `Scim.Proofs.Parse.RoundTrip`, reads back what can be written.
-/

set_option autoImplicit false

namespace Scim

open Recogniser Number

/-- The kind of token that a literal is written as. -/
def Value.tokenKind : Value → TokenKind
  | .string _ => .string
  | .integer _ | .float _ => .number
  | .boolean _ => .boolean
  | .null => .null

/-- The value of a number is written as a number. -/
theorem Value.tokenKind_ofNumber? {text : String} {v : Value} (h : ofNumber? text = some v) :
    v.tokenKind = .number := by
  have hfloat : (Binary64.read? text).map float = some v → v.tokenKind = .number := by
    rw [Option.map_eq_some_iff]
    rintro ⟨x, -, rfl⟩
    rfl
  unfold ofNumber? at h
  split at h
  · exact hfloat h
  · split at h
    · cases h
      rfl
    · exact hfloat h

/-- The kind of a literal is the one its value is written as. -/
theorem Token.kind_eq_tokenKind {t : Token} {v : Value} (h : t.literal? = some v) :
    t.kind = v.tokenKind := by
  unfold literal? at h
  split at h
  · next hkind => cases h; exact hkind
  · next hkind => rw [hkind, Value.tokenKind_ofNumber? h]
  · next hkind => cases h; exact hkind
  · next hkind => cases h; exact hkind
  · contradiction

/-- A number whose digits stand for one that is rounded to infinity. -/
def Token.Overflows (t : Token) : Prop :=
  t.kind = .number ∧ ∃ d, Decimal.read? t.text.toList = some d ∧
    Binary64.overflowBound * d.ratio.2 ≤ d.ratio.1

/-- Of digits alone it can be seen whether they overflow: the number they stand for is compared with
the bound. -/
theorem Token.overflows_iff_of_digits {t : Token} (hkind : t.kind = .number)
    (hds : Digits t.text.toList) :
    t.Overflows ↔ Binary64.overflowBound ≤ ofDigits t.text.toList := by
  simp [Overflows, hkind, Decimal.read?_digits hds, Decimal.ratio_natural]

section
variable {mode : Mode} {t : Token} {ts : List Token} (h : Scanned mode (t :: ts))

include h

/-- The value of a number is a natural number that fits into 64 bits, or a float, which is infinite
exactly if the number overflows. -/
theorem Scanned.number_value (hkind : t.kind = .number) :
    (∃ n : Int64, t.literal? = some (.integer n) ∧ ¬ t.Overflows) ∨
    (∃ x, t.literal? = some (.float x) ∧ x.isFinite = true ∧ ¬ t.Overflows) ∨
    t.literal? = some (.float (Binary64.infinity false)) ∧ t.Overflows := by
  obtain ⟨rest, -, hlex⟩ := h.first
  have hnumber := recogniserOf_of_lexeme? hlex
  rw [hkind] at hnumber
  obtain ⟨d, hd, hvalue⟩ := ofNumber?_of_number hnumber
  have hliteral : t.literal? = Value.ofNumber? (String.ofList t.text.toList) := by
    rw [Token.literal?, hkind, String.ofList_toList]
  have hoverflows : t.Overflows ↔ Binary64.overflowBound * d.ratio.2 ≤ d.ratio.1 := by
    simp [Token.Overflows, hkind, hd]
  rw [hliteral, hoverflows]
  rcases hvalue with hfloat | ⟨n, hinteger, hexponent, hn⟩
  · by_cases hbound : Binary64.overflowBound * d.ratio.2 ≤ d.ratio.1
    · rw [Decimal.magnitude_eq_infinity_iff.mpr hbound] at hfloat
      exact .inr (.inr ⟨hfloat, hbound⟩)
    · exact .inr (.inl ⟨_, hfloat, Binary64.isFinite_ofMagnitude (Nat.lt_of_not_le hbound), hbound⟩)
  · refine .inl ⟨n, hinteger, ?_⟩
    -- Numbers of 64 bits are far from the bound.
    have hlt : d.coefficient < 2 ^ 63 := by
      have := n.toInt_lt
      omega
    have hbound : 2 ^ 63 ≤ Binary64.overflowBound := by decide +kernel
    obtain ⟨coefficient, exponent⟩ := d
    obtain rfl : exponent = 0 := hexponent
    rw [Decimal.ratio_natural, Nat.mul_one]
    exact Nat.not_le_of_lt (Nat.lt_of_lt_of_le hlt hbound)

/-- Every literal of a scan has a value. It can be written as a literal, or it is infinite. -/
theorem Scanned.literal_value (hkind : t.kind ∈ TokenKind.literals) :
    ∃ v, t.literal? = some v ∧ (¬ t.Overflows → v.Writable) ∧
      (t.Overflows → v = .float (Binary64.infinity false)) := by
  by_cases hnumber : t.kind = .number
  · rcases h.number_value hnumber with ⟨n, hv, hnot⟩ | ⟨x, hv, hfinite, hnot⟩ | ⟨hv, hover⟩
    · exact ⟨_, hv, fun _ => h.unsigned hv, fun hover => absurd hover hnot⟩
    · exact ⟨_, hv, fun _ => ⟨hfinite, h.unsigned hv⟩, fun hover => absurd hover hnot⟩
    · exact ⟨_, hv, fun hnot => absurd hover hnot, fun _ => rfl⟩
  · obtain ⟨v, hv⟩ : ∃ v, t.literal? = some v := by
      simp only [TokenKind.literals, List.mem_cons, List.not_mem_nil, or_false] at hkind
      rcases hkind with hkind | hkind | hkind | hkind
      · exact ⟨_, by rw [Token.literal?, hkind]⟩
      · exact absurd hkind hnumber
      · exact ⟨_, by rw [Token.literal?, hkind]⟩
      · exact ⟨_, by rw [Token.literal?, hkind]⟩
    refine ⟨v, hv, fun _ => (h.unsigned hv).writable ?_, fun hover => absurd hover.1 hnumber⟩
    rintro x rfl
    exact absurd (Token.kind_eq_tokenKind hv) hnumber

end

/-- A text that is one token of a filter is the same token in either mode. -/
theorem tokenize_of_lexeme? {text : String} {kind : TokenKind}
    (h : lexeme? .filter text.toList = some (kind, text.toList, [])) (mode : Mode) :
    tokenize mode text = .ok [⟨kind, text, 0⟩] := by
  have hscan : Scans .filter 0 text.toList [⟨kind, String.ofList text.toList, 0⟩] [] :=
    .step h (.done _ [])
  rw [String.ofList_toList] at hscan
  rw [tokenize_eq_ok_iff]
  cases mode with
  | filter => exact hscan
  | path => exact hscan.in_path

/-- Every literal of a scan has a value, and unless it is a number that overflows, the value is
written back: its text is one token, of the same kind and with the same value. A number that
overflows is written as the name `inf`. -/
theorem tokenize_render_literal {mode : Mode} {input : String} {tokens : List Token}
    (h : tokenize mode input = .ok tokens) {t : Token} (ht : t ∈ tokens)
    (hkind : t.kind ∈ TokenKind.literals) :
    ∃ v, t.literal? = some v ∧
      (¬ t.Overflows → ∀ mode', tokenize mode' v.render = .ok [⟨t.kind, v.render, 0⟩] ∧
        (Token.mk t.kind v.render 0).literal? = some v) ∧
      (t.Overflows → ∀ mode', tokenize mode' v.render = .ok [⟨.name, "inf", 0⟩]) := by
  obtain ⟨after, hscanned⟩ :=
    (scanned_of_tokensFrom (tokenize_eq_ok_iff_tokensFrom.mp h)).of_mem ht
  obtain ⟨v, hv, hwritable, hinfinite⟩ := hscanned.literal_value hkind
  refine ⟨v, hv, ?_, ?_⟩
  · intro hnot mode'
    obtain ⟨kind, -, hlex, hliteral⟩ := lexeme?_literal (hwritable hnot) delimited_nil
    -- The kind of a literal can be seen from its value.
    have hsame : kind = t.kind :=
      (Token.kind_eq_tokenKind (hliteral 0)).trans (Token.kind_eq_tokenKind hv).symm
    rw [List.append_nil, hsame] at hlex
    rw [hsame] at hliteral
    exact ⟨tokenize_of_lexeme? hlex mode', hliteral 0⟩
  · intro hover mode'
    have hrender : v.render = "inf" := by
      rw [hinfinite hover]
      decide +kernel
    rw [hrender]
    exact tokenize_of_lexeme? (by decide +kernel) mode'

/-- `2 ^ 64` is a float that is written back with a fraction, and `10 ^ 309` is infinite. -/
theorem tokenize_render_literal_great :
    tokenize .filter "a eq 18446744073709551616"
      = .ok [⟨.name, "a", 0⟩, ⟨.comparisonOperator, " eq ", 1⟩,
          ⟨.number, "18446744073709551616", 5⟩] ∧
    (∃ v, (Token.mk .number "18446744073709551616" 5).literal? = some v ∧
      v.render = "18446744073709551616.0" ∧
      tokenize .path v.render = .ok [⟨.number, v.render, 0⟩] ∧
      (Token.mk .number v.render 0).literal? = some v) ∧
    ∃ v, (Token.mk .number (String.ofList ('1' :: List.replicate 309 '0')) 0).literal? = some v ∧
      tokenize .filter v.render = .ok [⟨.name, "inf", 0⟩] := by
  have hscan : tokenize .filter "a eq 18446744073709551616"
      = .ok [⟨.name, "a", 0⟩, ⟨.comparisonOperator, " eq ", 1⟩,
          ⟨.number, "18446744073709551616", 5⟩] := by decide +kernel
  have hdigits : Digits ('1' :: List.replicate 309 '0') :=
    ⟨List.cons_ne_nil _ _, List.all_eq_true.mp (by decide +kernel)⟩
  have hgreat : tokenize .filter (String.ofList ('1' :: List.replicate 309 '0'))
      = .ok [⟨.number, String.ofList ('1' :: List.replicate 309 '0'), 0⟩] := by
    have hlex := lexeme?_number (number_digits hdigits) delimited_nil
    rw [List.append_nil] at hlex
    refine tokenize_of_lexeme? ?_ .filter
    rwa [String.toList_ofList]
  refine ⟨hscan, ?_, ?_⟩
  · obtain ⟨v, hv, hwritten, -⟩ := tokenize_render_literal hscan
      (List.mem_of_getLast? rfl) (by decide)
    have hnot : ¬ (Token.mk .number "18446744073709551616" 5).Overflows := by
      have hfew : Digits "18446744073709551616".toList :=
        ⟨by decide, List.all_eq_true.mp (by decide)⟩
      rw [Token.overflows_iff_of_digits rfl hfew]
      decide +kernel
    have hvalue : (Token.mk .number "18446744073709551616" 5).literal?
        = some (.float ⟨0x43F0000000000000⟩) := by decide +kernel
    obtain rfl : _ = v := Option.some.inj (hvalue.symm.trans hv)
    exact ⟨_, hv, by decide +kernel, hwritten hnot .path⟩
  · obtain ⟨v, hv, -, hinfinite⟩ := tokenize_render_literal hgreat
      List.mem_cons_self (by decide)
    refine ⟨v, hv, hinfinite ?_ .filter⟩
    rw [Token.overflows_iff_of_digits rfl (by rwa [String.toList_ofList]), String.toList_ofList]
    decide +kernel

end Scim
