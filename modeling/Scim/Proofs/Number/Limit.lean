import Mathlib.Data.List.Basic
import Mathlib.Data.Nat.Digits.Defs
import Scim.Proofs.Number.Range
import Scim.Proofs.Number.Text

/-!
# `Scim.Proofs.Number.Limit`: where integers end and floats begin

A run of digits may be of any length and may start with any number of zeros. It is read as an
integer first, and as a float only if the integer does not fit into 64 bits. What decides is thus
the number alone, `decimalValue`:

* up to `2 ^ 63 - 1` it is an integer, and above a float;
* with a point in it, it is always a float.

`ofNumber?_splits_at_limit` states both, and also that a run of digits always has a value and that
an integer is written without zeros in front (`Tidy`), in digits that are read back as it.

`ofNumber?_digits` is the reason. A run of digits is read as the value of its number, which is the
same that an integer gets that is not read from text at all. In the float branch this needs that
both round alike: the reader of decimals takes a short cut for great orders of magnitude, and ends
up at infinity like the other (`Decimal.magnitude_natural`).
-/

set_option autoImplicit false

namespace Scim.Number

/-! ### Digits of a number -/

/-- The number that digits write in the decimal system, leading zeros allowed. -/
def decimalValue (ds : List Char) : Nat :=
  Nat.ofDigits 10 (ds.map digitValue).reverse

/-- The function that reads digits gives their number. -/
theorem ofDigits_eq_decimalValue (ds : List Char) : ofDigits ds = decimalValue ds := by
  unfold decimalValue
  induction ds with
  | nil => rfl
  | cons c ds ih =>
      -- The first digit counts for as many tens as there are digits behind it.
      rw [List.map_cons, List.reverse_cons, Nat.ofDigits_append, Nat.ofDigits_singleton, ← ih,
        List.length_reverse, List.length_map]
      show ofDigits ([c] ++ ds) = _
      rw [ofDigits_append]
      simp only [ofDigits, List.foldl_cons, List.foldl_nil]
      ring

/-- A run of digits without zeros in front of it, except for zero itself. -/
structure Tidy (ds : List Char) : Prop extends Digits ds where
  eq_zero : ds.head? = some '0' → ds = ['0']

/-- A number is written without zeros in front of it. -/
theorem tidy_digits (n : Nat) : Tidy (digits n) := by
  refine ⟨digits_digits n, ?_⟩
  fun_induction digits n with
  | case1 n hn =>
      intro h
      rw [List.head?_cons, Option.some.injEq] at h
      rw [h]
  | case2 n hn ih =>
      intro h
      rw [List.head?_append_of_ne_nil _ (digits_ne_nil _)] at h
      -- A number with more digits than one is not zero without the last of them.
      have hvalue := ofDigits_digits (n / 10)
      rw [ih h] at hvalue
      have hzero : n / 10 = 0 := hvalue.symm
      omega

/-! ### Rounding a natural number -/

/-- A natural number is rounded alike as a decimal and as a quotient, also where the decimal is out
of range. -/
theorem Decimal.magnitude_natural (n : Nat) :
    Decimal.magnitude ⟨n, 0⟩ = Binary64.nearestMagnitude n 1 := by
  by_cases hn : n = 0
  · subst hn
    decide +kernel
  · have horder : Decimal.order ⟨n, 0⟩ = (digits n).length := by
      show ((digits n).length : Int) + 0 = _
      omega
    have hratio := Decimal.ratio_natural n
    by_cases hhigh : 310 < Decimal.order ⟨n, 0⟩
    · -- So great a number is infinite in any case.
      have hbound : Binary64.overflowBound * 1 ≤ n := by
        have hinfinite : Decimal.magnitude ⟨n, 0⟩ = Binary64.infinityMagnitude := by
          rw [Decimal.magnitude, if_neg (by simp only [hn, false_or]; omega), if_pos hhigh]
        have hle := Decimal.magnitude_eq_infinity_iff.mp hinfinite
        rwa [hratio] at hle
      rw [Decimal.magnitude, if_neg (by simp only [hn, false_or]; omega), if_pos hhigh]
      exact (Binary64.nearestMagnitude_eq_infinity_iff Nat.one_pos).mpr hbound |>.symm
    · rw [Decimal.magnitude, if_neg (by simp only [hn, false_or]; omega), if_neg hhigh, hratio]

end Scim.Number

namespace Scim.Value

open Number

/-! ### Reading a number -/

/-- Digits are read as the value of their number. -/
theorem ofNumber?_digits {ds : List Char} (hds : Digits ds) :
    ofNumber? (String.ofList ds) = some (ofInt (decimalValue ds)) := by
  have hpoint : '.' ∉ ds := fun h => by simpa using hds.all '.' h
  rw [ofNumber?, String.toList_ofList, if_neg hpoint, readInteger?_of_digits hds.ne_nil hds.all,
    Option.bind_some, ofDigits_eq_decimalValue, ofInt]
  cases toInt64? (decimalValue ds) with
  | some n => rfl
  | none =>
      -- The same digits are read again, as a decimal.
      have hread := Decimal.read?_digits hds
      obtain ⟨c, cs, rfl⟩ := List.exists_cons_of_ne_nil hds.ne_nil
      have hsign : decide ((decimalValue (c :: cs) : Int) < 0) = false :=
        decide_eq_false (by omega)
      show (Binary64.read? _).map float = some (float (Binary64.ofInt _))
      rw [Binary64.read?_of_decimal (hds.all c List.mem_cons_self) hread,
        Decimal.magnitude_natural, ofDigits_eq_decimalValue, Binary64.ofInt, Int.natAbs_natCast,
        hsign]
      rfl

/-- Digits with a point among them are read as a float. -/
theorem exists_ofNumber?_point {whole fraction : List Char} (hwhole : Digits whole)
    (hfraction : Digits fraction) :
    ∃ x, ofNumber? (String.ofList (whole ++ '.' :: fraction)) = some (.float x) := by
  have hread := Decimal.read?_point hwhole hfraction
  obtain ⟨c, cs, rfl⟩ := List.exists_cons_of_ne_nil hwhole.ne_nil
  rw [List.cons_append] at hread ⊢
  rw [ofNumber?, String.toList_ofList, if_pos (by simp),
    Binary64.read?_of_decimal (hwhole.all c List.mem_cons_self) hread]
  exact ⟨_, rfl⟩

/-- A natural number is an integer if it fits into 64 bits, and else a float. -/
theorem ofInt_natural (n : Nat) :
    (n ≤ 2 ^ 63 - 1 ∧ ∃ m : Int64, m.toInt = n ∧ ofInt n = .integer m) ∨
      (2 ^ 63 - 1 < n ∧ ∃ x, ofInt n = .float x) := by
  have hmin : Int64.minValue.toInt = -2 ^ 63 := by decide
  have hmax : Int64.maxValue.toInt = 2 ^ 63 - 1 := by decide
  rw [ofInt, toInt64?, hmin, hmax]
  by_cases hn : n ≤ 2 ^ 63 - 1
  · rw [if_pos (by omega)]
    exact .inl ⟨hn, _, Int64.toInt_ofInt_of_le (by omega) (by omega), rfl⟩
  · rw [if_neg (by omega)]
    exact .inr ⟨by omega, _, rfl⟩

/-- An integer that is not negative is written in digits without zeros in front. -/
theorem exists_tidy_render {n : Int64} (hn : 0 ≤ n.toInt) :
    ∃ ds, (Value.integer n).render = String.ofList ds ∧ Tidy ds := by
  refine ⟨digits n.toInt.natAbs, ?_, tidy_digits _⟩
  show integerText n.toInt = _
  rw [integerText, if_neg (by omega)]

/-- A run of digits is an integer of the same value exactly if that is at most `2 ^ 63 - 1`, and
else it is a float. Digits with a point among them are always a float. An integer that was read like
this is written in digits without zeros in front, and read back from them. -/
theorem ofNumber?_splits_at_limit :
    (∀ text : String, Digits text.toList →
      ofNumber? text ≠ none ∧
      ((∃ n : Int64, n.toInt = decimalValue text.toList ∧ ofNumber? text = some (.integer n)) ↔
        decimalValue text.toList ≤ 2 ^ 63 - 1) ∧
      ((∃ x, ofNumber? text = some (.float x)) ↔ 2 ^ 63 - 1 < decimalValue text.toList) ∧
      ∀ n : Int64, ofNumber? text = some (.integer n) →
        n.toInt = decimalValue text.toList ∧
        (∃ ds, (Value.integer n).render = String.ofList ds ∧ Tidy ds) ∧
        ofNumber? (Value.integer n).render = some (.integer n)) ∧
    ∀ (text : String) (whole fraction : List Char), text.toList = whole ++ '.' :: fraction →
      Digits whole → Digits fraction → ∃ x, ofNumber? text = some (.float x) := by
  constructor
  · intro text hds
    have hread := ofNumber?_digits hds
    rw [String.ofList_toList] at hread
    rw [hread]
    -- The digits are gone from here on. Only the number they stand for decides.
    rcases ofInt_natural (decimalValue text.toList) with ⟨hle, m, hm, hvalue⟩ | ⟨hlt, x, hvalue⟩
    · rw [hvalue]
      refine ⟨by simp, iff_of_true ⟨m, hm, rfl⟩ hle, iff_of_false (by simp) (by omega), ?_⟩
      intro n hn
      cases hn
      have hsign : 0 ≤ m.toInt := by omega
      exact ⟨hm, exists_tidy_render hsign, ofNumber?_integerText hsign⟩
    · rw [hvalue]
      refine ⟨by simp, iff_of_false (by simp) (by omega), iff_of_true ⟨x, rfl⟩ hlt, ?_⟩
      intro n hn
      cases hn
  · intro text whole fraction htext hwhole hfraction
    have hfloat := exists_ofNumber?_point hwhole hfraction
    rwa [← htext, String.ofList_toList] at hfloat

/-- The greatest integer with zeros in front, the number after it, and a number with a point. -/
theorem ofNumber?_splits_at_limit_zeros :
    (Digits "0009223372036854775807".toList ∧
      ∃ n : Int64, n.toInt = 2 ^ 63 - 1 ∧
        ofNumber? "0009223372036854775807" = some (.integer n) ∧
        (Value.integer n).render = "9223372036854775807") ∧
    (Digits "9223372036854775808".toList ∧
      ∃ x, ofNumber? "9223372036854775808" = some (.float x)) ∧
    ∃ x, ofNumber? "007.50" = some (.float x) := by
  have hdigits : ∀ text : String, (text.toList ≠ [] ∧ text.toList.all Char.isDigit = true) →
      Digits text.toList :=
    fun _ h => ⟨h.1, List.all_eq_true.mp h.2⟩
  have hgreatest := hdigits "0009223372036854775807" (by decide)
  have hnext := hdigits "9223372036854775808" (by decide)
  have hvalue : decimalValue "0009223372036854775807".toList = 2 ^ 63 - 1 := by decide
  obtain ⟨n, hn, hread⟩ := (ofNumber?_splits_at_limit.1 _ hgreatest).2.1.mpr (by decide)
  refine ⟨⟨hgreatest, n, ?_, hread, ?_⟩, ⟨hnext, ?_⟩, ?_⟩
  · rw [hn, hvalue]
    decide
  · show integerText n.toInt = _
    rw [hn, hvalue]
    decide +kernel
  · exact (ofNumber?_splits_at_limit.1 _ hnext).2.2.1.mpr (by decide)
  · exact ofNumber?_splits_at_limit.2 "007.50" ['0', '0', '7'] ['5', '0'] (by decide)
      ⟨by simp, by simp⟩ ⟨by simp, by simp⟩

end Scim.Value
