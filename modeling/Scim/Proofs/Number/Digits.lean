import Scim.Number.Digits
import Mathlib.Tactic.Ring

/-!
# `Scim.Proofs.Number.Digits`: digits and the numbers they write

`digits` writes a number in the decimal system and `ofDigits` reads it.

* `ofDigits_digits` is the round trip. It goes by the last digit, since that is where `digits` takes
  a number apart, and `foldl_digits` says what the digits read so far become when others follow.
* `ofDigits_append` is how a run of digits is read in two parts. Zeros in front add nothing
  (`ofDigits_zeros`).
* `length_digits_eq_iff` says how many digits a number has: one more than the power of ten below it.
  `length_digits_le` and `lt_length_digits` are the two halves of it that are used on their own, and
  `length_digits_mul_pow` counts the zeros that a power of ten appends.
* `readInteger?_of_digits`: the integers of an expression are runs of digits, and they are read as
  the number of the run.
-/

set_option autoImplicit false

namespace Scim.Number

/-- The character for a digit is a digit. -/
theorem isDigit_digitChar {d : Nat} (hd : d < 10) : (digitChar d).isDigit = true := by
  have hall : ∀ d < 10, (digitChar d).isDigit = true := by decide
  exact hall d hd

/-- And it stands for the digit that it was made for. -/
theorem digitValue_digitChar {d : Nat} (hd : d < 10) : digitValue (digitChar d) = d := by
  have hall : ∀ d < 10, digitValue (digitChar d) = d := by decide
  exact hall d hd

/-- A number is written in digits. -/
theorem all_isDigit_digits (n : Nat) : ∀ c ∈ digits n, c.isDigit = true := by
  fun_induction digits n with
  | case1 n hn =>
      intro c hc
      rw [List.mem_singleton.mp hc]
      exact isDigit_digitChar hn
  | case2 n hn ih =>
      intro c hc
      rcases List.mem_append.mp hc with hc | hc
      · exact ih c hc
      · rw [List.mem_singleton.mp hc]
        exact isDigit_digitChar (Nat.mod_lt n (by decide))

/-- It is written with at least one of them, zero included. -/
theorem digits_ne_nil (n : Nat) : digits n ≠ [] := by
  rw [digits]
  split <;> simp

/-! ### Reading digits -/

/-- Reading on from a number shifts it by as many places as there are digits. -/
theorem foldl_digits (ds : List Char) (n : Nat) :
    ds.foldl (fun n c => 10 * n + digitValue c) n = n * 10 ^ ds.length + ofDigits ds := by
  unfold ofDigits
  induction ds generalizing n with
  | nil => simp
  | cons c ds ih =>
      rw [List.foldl_cons, List.foldl_cons, ih, ih (10 * 0 + digitValue c), List.length_cons]
      ring

/-- Digits are read in two parts, the first of them shifted by the length of the second. -/
theorem ofDigits_append (ds es : List Char) :
    ofDigits (ds ++ es) = ofDigits ds * 10 ^ es.length + ofDigits es := by
  rw [← foldl_digits es (ofDigits ds), ofDigits, ofDigits, List.foldl_append]

/-- A zero in front adds nothing. -/
theorem ofDigits_cons_zero (ds : List Char) : ofDigits ('0' :: ds) = ofDigits ds := by
  show ds.foldl _ (10 * 0 + digitValue '0') = _
  rw [foldl_digits]
  simp [digitValue]

/-- Zeros alone are zero. -/
theorem ofDigits_zeros (k : Nat) : ofDigits (List.replicate k '0') = 0 := by
  induction k with
  | zero => rfl
  | succ k ih => rw [List.replicate_succ, ofDigits_cons_zero, ih]

/-- A number that is written is read back. -/
theorem ofDigits_digits (n : Nat) : ofDigits (digits n) = n := by
  fun_induction digits n with
  | case1 n hn => simp [ofDigits, digitValue_digitChar hn]
  | case2 n hn ih =>
      have hlast : ofDigits [digitChar (n % 10)] = n % 10 := by
        simp [ofDigits, digitValue_digitChar (Nat.mod_lt n (by decide : 0 < 10))]
      rw [ofDigits_append, ih, hlast]
      simp only [List.length_singleton, Nat.pow_one]
      omega

/-- A run of digits is an integer without a sign. -/
theorem readInteger?_of_digits {ds : List Char} (hne : ds ≠ [])
    (hds : ∀ c ∈ ds, c.isDigit = true) : readInteger? ds = some (ofDigits ds : Int) := by
  -- The first character is a digit and no sign.
  have hsign : splitSign ds = (false, ds) := by
    obtain ⟨c, cs, rfl⟩ := List.exists_cons_of_ne_nil hne
    have hc := hds c List.mem_cons_self
    unfold splitSign
    split
    · next h => cases h; simp [Char.isDigit] at hc
    · next h => cases h; simp [Char.isDigit] at hc
    · rfl
  unfold readInteger?
  rw [hsign]
  simp only
  rw [if_pos ⟨hne, by simpa using hds⟩]
  simp

/-! ### The number of digits -/

/-- A positive number has so many digits if it lies between the powers of ten on either side. -/
theorem length_digits_eq_iff {n k : Nat} (hn : n ≠ 0) :
    (digits n).length = k + 1 ↔ 10 ^ k ≤ n ∧ n < 10 ^ (k + 1) := by
  -- One digit less is the same number divided by ten.
  induction k generalizing n with
  | zero =>
      rw [digits]
      split
      · simp
        omega
      · next h =>
          have hpos := List.length_pos_iff.mpr (digits_ne_nil (n / 10))
          simp only [List.length_append, List.length_singleton]
          omega
  | succ k ih =>
      rw [digits]
      split
      · next h =>
          have hpow := Nat.one_le_pow k 10 (by decide)
          simp only [List.length_singleton, Nat.pow_succ]
          omega
      · next h =>
          have hk := ih (n := n / 10) (by omega)
          rw [List.length_append, List.length_singleton, Nat.add_right_cancel_iff, hk,
            Nat.le_div_iff_mul_le (by decide), Nat.div_lt_iff_lt_mul (by decide), ← Nat.pow_succ,
            ← Nat.pow_succ]

/-- A positive number has some number of digits, by the power of ten that is not above it. -/
theorem exists_length_digits {n : Nat} (hn : n ≠ 0) :
    ∃ k, (digits n).length = k + 1 ∧ 10 ^ k ≤ n ∧ n < 10 ^ (k + 1) := by
  obtain ⟨k, hk⟩ := Nat.exists_eq_succ_of_ne_zero
    (Nat.ne_of_gt (List.length_pos_iff.mpr (digits_ne_nil n)))
  exact ⟨k, hk, (length_digits_eq_iff hn).mp hk⟩

/-- A power of ten appends zeros. -/
theorem length_digits_mul_pow {n : Nat} (hn : n ≠ 0) (j : Nat) :
    (digits (n * 10 ^ j)).length = (digits n).length + j := by
  obtain ⟨k, hk, hlow, hhigh⟩ := exists_length_digits hn
  have hpos : 0 < 10 ^ j := Nat.pow_pos (by decide)
  have hmul : n * 10 ^ j ≠ 0 := Nat.mul_ne_zero hn (Nat.ne_of_gt hpos)
  rw [hk, Nat.add_right_comm, length_digits_eq_iff hmul]
  constructor
  · rw [Nat.pow_add]
    exact Nat.mul_le_mul_right _ hlow
  · rw [Nat.add_right_comm, Nat.pow_add]
    exact Nat.mul_lt_mul_of_pos_right hhigh hpos

/-- A number below a power of ten has no more digits than the exponent. -/
theorem length_digits_le {n k : Nat} (hk : 0 < k) (h : n < 10 ^ k) : (digits n).length ≤ k := by
  by_cases hn : n = 0
  · subst hn
    rw [digits, if_pos (by decide), List.length_singleton]
    exact hk
  · obtain ⟨j, hj, hlow, -⟩ := exists_length_digits hn
    have hlt := (Nat.pow_lt_pow_iff_right (by decide : 1 < 10)).mp (Nat.lt_of_le_of_lt hlow h)
    omega

/-- A number not below a power of ten has more digits than the exponent. -/
theorem lt_length_digits {n k : Nat} (h : 10 ^ k ≤ n) : k < (digits n).length := by
  have hn : n ≠ 0 := by
    have hpos : 0 < 10 ^ k := Nat.pow_pos (by decide)
    omega
  obtain ⟨j, hj, -, hhigh⟩ := exists_length_digits hn
  have hlt := (Nat.pow_lt_pow_iff_right (by decide : 1 < 10)).mp (Nat.lt_of_le_of_lt h hhigh)
  omega

end Scim.Number
