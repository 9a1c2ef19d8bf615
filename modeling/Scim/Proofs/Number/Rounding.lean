import Scim.Number.Shortest
import Scim.Proofs.Number.Digits

/-!
# `Scim.Proofs.Number.Rounding`: what is exact stays exact

A finite binary64 number is `significand * 2 ^ scale` in units of the least positive number, and its
magnitude is `scale * 2 ^ 52 + significand` (`magnitude_eq`). Rounding a quotient of exactly this
value gives the number back, however the quotient is written (`nearestMagnitude_of_exact`). There
are two parts to that:

* `nearestMagnitude_scale` finds the scale by the place of the leading bit (`log2_mul_pow`), and
  divides without a remainder (`divNearestEven_mul`).
* `nearestMagnitude_congr`: quotients of the same value are rounded alike.

It follows that the shortest decimal of a number is rounded to that number
(`magnitude_shortest`): either the search found one that is, or the exact value stands in for it.
The exact value is a decimal as well (`magnitude_exact`), since a power of two is one with a power
of five in its coefficient. It is not cut off before it is rounded, because it has few enough digits
in front of the point (`value_lt`) and behind it (`pow_ten_le_pow_five`).

`magnitude_shift` says that zeros at the end of a decimal do not matter. The writer of numbers
appends them where a number has no fraction.
-/

set_option autoImplicit false

namespace Scim.Number

namespace Binary64

/-! ### Significand and scale -/

/-- A magnitude counts its scale in steps of `2 ^ 52`, and the significand comes on top. -/
theorem magnitude_eq (x : Binary64) : x.magnitude = x.scale * 2 ^ 52 + x.significand := by
  unfold scale significand
  simp only [Nat.pow_eq]
  split <;> omega

/-- A significand has 53 bits at most. -/
theorem significand_lt (x : Binary64) : x.significand < 2 ^ 53 := by
  unfold significand
  simp only [Nat.pow_eq]
  split <;> omega

/-- Only the least scale has significands that do not fill 53 bits. -/
theorem scale_eq_zero_or (x : Binary64) : x.scale = 0 ∨ 2 ^ 52 ≤ x.significand := by
  unfold scale significand
  simp only [Nat.pow_eq]
  split <;> omega

/-- A finite number has a scale below that of infinity. -/
theorem scale_le {x : Binary64} (h : x.isFinite = true) : x.scale ≤ 2045 := by
  have hlt : x.magnitude < infinityMagnitude := by simpa [isFinite] using h
  unfold infinityMagnitude at hlt
  unfold scale
  simp only [Nat.pow_eq]
  omega

/-- Only zero has no significand. -/
theorem significand_ne_zero {x : Binary64} (h : x.magnitude ≠ 0) : x.significand ≠ 0 := by
  have heq := x.magnitude_eq
  rcases x.scale_eq_zero_or with hscale | hsig
  · rw [hscale] at heq
    omega
  · omega

/-- The quotient is the value, `significand * 2 ^ scale` units of `2 ^ (-1074)`. -/
theorem ratio_eq (x : Binary64) :
    x.ratio.1 * 2 ^ 1074 = x.ratio.2 * (x.significand * 2 ^ x.scale) ∧ 0 < x.ratio.2 := by
  unfold ratio
  simp only [Nat.pow_eq]
  split
  · next h =>
      refine ⟨?_, Nat.one_pos⟩
      rw [Nat.mul_assoc, ← Nat.pow_add, Nat.sub_add_cancel h, Nat.one_mul]
  · next h =>
      refine ⟨?_, Nat.two_pow_pos _⟩
      rw [Nat.mul_left_comm, ← Nat.pow_add, Nat.sub_add_cancel (by omega)]

/-! ### Rounding -/

/-- The scale of a number can be told from the place of its leading bit. -/
theorem log2_mul_pow {sig scale : Nat} (hsig : sig < 2 ^ 53) (hnorm : scale = 0 ∨ 2 ^ 52 ≤ sig) :
    Nat.log2 (sig * 2 ^ scale) - 52 = scale := by
  by_cases hzero : sig = 0
  · subst hzero
    simp only [Nat.zero_mul, Nat.log2_zero]
    omega
  · rcases hnorm with rfl | hnorm
    · have hlog : Nat.log2 sig < 53 := (Nat.log2_lt hzero).mpr hsig
      rw [Nat.pow_zero, Nat.mul_one]
      omega
    · -- A significand of 53 bits, shifted: the logarithm is 52 and the shift.
      have hpos : sig * 2 ^ scale ≠ 0 := Nat.mul_ne_zero hzero (Nat.ne_of_gt (Nat.two_pow_pos _))
      have hlog : Nat.log2 (sig * 2 ^ scale) = 52 + scale := by
        rw [Nat.log2_eq_iff hpos, Nat.add_right_comm, Nat.pow_add, Nat.pow_add]
        exact ⟨Nat.mul_le_mul_right _ hnorm, Nat.mul_lt_mul_of_pos_right hsig (Nat.two_pow_pos _)⟩
      omega

/-- A quotient without a remainder is not rounded. -/
theorem divNearestEven_mul {n d : Nat} (hd : 0 < d) : divNearestEven (d * n) d = n := by
  unfold divNearestEven
  rw [Nat.mul_mod_right, Nat.mul_div_cancel_left n hd, if_pos (Or.inl (by omega))]

/-- A quotient whose value is that of a finite number is rounded to it. -/
theorem nearestMagnitude_of_exact {x : Binary64} (hx : x.isFinite = true) {num den : Nat}
    (hden : 0 < den) (h : num * 2 ^ 1074 = den * (x.significand * 2 ^ x.scale)) :
    nearestMagnitude num den = x.magnitude := by
  have hlt : x.magnitude < infinityMagnitude := by simpa [isFinite] using hx
  have hscale := log2_mul_pow x.significand_lt x.scale_eq_zero_or
  have hround : divNearestEven (den * (x.significand * 2 ^ x.scale)) (den * 2 ^ x.scale)
      = x.significand := by
    rw [Nat.mul_comm x.significand, ← Nat.mul_assoc]
    exact divNearestEven_mul (Nat.mul_pos hden (Nat.two_pow_pos _))
  -- With the exact value in place, the scale is found again and the division has no rest.
  unfold nearestMagnitude
  simp only [Nat.pow_eq, h, Nat.mul_div_cancel_left _ hden, hscale, hround]
  rw [← x.magnitude_eq]
  omega

/-- Rounding does not depend on how a quotient is reduced. -/
theorem divNearestEven_scale (k num den : Nat) (hk : 0 < k) :
    divNearestEven (k * num) (k * den) = divNearestEven num den := by
  unfold divNearestEven
  have hlt : 2 * (k * (num % den)) < k * den ↔ 2 * (num % den) < den := by
    rw [Nat.mul_left_comm]
    exact Nat.mul_lt_mul_left hk
  have heq : 2 * (k * (num % den)) = k * den ↔ 2 * (num % den) = den := by
    rw [Nat.mul_left_comm]
    exact Nat.mul_right_inj (Nat.ne_of_gt hk)
  simp only [Nat.mul_mod_mul_left, Nat.mul_div_mul_left _ _ hk, hlt, heq]

/-- Rounding does not depend on how a quotient is reduced. -/
theorem nearestMagnitude_scale (k num den : Nat) (hk : 0 < k) :
    nearestMagnitude (k * num) (k * den) = nearestMagnitude num den := by
  unfold nearestMagnitude
  simp only [Nat.mul_assoc, Nat.mul_div_mul_left _ _ hk, divNearestEven_scale _ _ _ hk]

/-- Quotients of the same value are rounded alike. -/
theorem nearestMagnitude_congr {num den num' den' : Nat} (hden : 0 < den) (hden' : 0 < den')
    (h : num * den' = num' * den) : nearestMagnitude num den = nearestMagnitude num' den' := by
  rw [← nearestMagnitude_scale den' num den hden', ← nearestMagnitude_scale den num' den' hden,
    Nat.mul_comm den' num, Nat.mul_comm den num', h, Nat.mul_comm den den']

end Binary64

/-! ### Decimals -/

namespace Decimal

/-- The denominator of a decimal is positive. -/
theorem ratio_pos (d : Decimal) : 0 < d.ratio.2 := by
  unfold ratio
  split
  · exact Nat.one_pos
  · exact Nat.pow_pos (by decide)

/-- A natural number is itself over one. -/
theorem ratio_natural (n : Nat) : ratio ⟨n, 0⟩ = (n, 1) := by
  simp [ratio]

/-- A decimal with zeros appended to its coefficient has the same value. -/
theorem ratio_shift (c j : Nat) (e : Int) :
    (ratio ⟨c * 10 ^ j, e - j⟩).1 * (ratio ⟨c, e⟩).2
      = (ratio ⟨c, e⟩).1 * (ratio ⟨c * 10 ^ j, e - j⟩).2 := by
  unfold ratio
  simp only [Nat.pow_eq]
  -- A negative exponent goes into the denominator, so there are three cases for the two exponents.
  by_cases he : 0 ≤ e
  · rw [if_pos (show 0 ≤ (Decimal.mk c e).exponent from he)]
    by_cases hshift : 0 ≤ e - j
    · rw [if_pos (show 0 ≤ (Decimal.mk (c * 10 ^ j) (e - j)).exponent from hshift)]
      have hexp : e.toNat = j + (e - j).toNat := by omega
      simp only [hexp, Nat.pow_add, Nat.mul_one, Nat.mul_assoc]
    · rw [if_neg (show ¬ 0 ≤ (Decimal.mk (c * 10 ^ j) (e - j)).exponent from hshift)]
      have hexp : j = e.toNat + (-(e - j)).toNat := by omega
      simp only [Nat.mul_one, Nat.mul_assoc, ← Nat.pow_add, ← hexp]
  · have hshift : ¬ 0 ≤ e - j := by omega
    rw [if_neg (show ¬ 0 ≤ (Decimal.mk c e).exponent from he),
      if_neg (show ¬ 0 ≤ (Decimal.mk (c * 10 ^ j) (e - j)).exponent from hshift)]
    have hexp : (-(e - j)).toNat = j + (-e).toNat := by omega
    simp only [hexp, Nat.pow_add, Nat.mul_assoc]

/-- Zeros at the end of a decimal do not matter. -/
theorem magnitude_shift {c : Nat} (hc : c ≠ 0) (j : Nat) (e : Int) :
    magnitude ⟨c * 10 ^ j, e - j⟩ = magnitude ⟨c, e⟩ := by
  have hpow : 10 ^ j ≠ 0 := Nat.ne_of_gt (Nat.pow_pos (by decide))
  have horder : order ⟨c * 10 ^ j, e - j⟩ = order ⟨c, e⟩ := by
    simp only [order, length_digits_mul_pow hc]
    omega
  -- Neither the order nor the value changes, and the magnitude depends on nothing else.
  have hnearest : Binary64.nearestMagnitude (ratio ⟨c * 10 ^ j, e - j⟩).1
        (ratio ⟨c * 10 ^ j, e - j⟩).2
      = Binary64.nearestMagnitude (ratio ⟨c, e⟩).1 (ratio ⟨c, e⟩).2 :=
    Binary64.nearestMagnitude_congr (ratio_pos _) (ratio_pos _) (ratio_shift c j e)
  simp only [magnitude, horder, hnearest, Nat.mul_eq_zero, hc, hpow, or_self]

/-- A decimal of the value of a finite number is rounded to it, unless its power of ten is out of
range. -/
theorem magnitude_of_exact {x : Binary64} (hx : x.isFinite = true) {d : Decimal}
    (hc : d.coefficient ≠ 0) (hlow : -330 ≤ d.order) (hhigh : d.order ≤ 310)
    (h : d.ratio.1 * 2 ^ 1074 = d.ratio.2 * (x.significand * 2 ^ x.scale)) :
    d.magnitude = x.magnitude := by
  unfold magnitude
  rw [if_neg (by omega), if_neg (by omega)]
  exact Binary64.nearestMagnitude_of_exact hx d.ratio_pos h

end Decimal

namespace Binary64

/-- The value of a finite number is below `2 ^ 1024`, so it has at most 310 digits before the
point. -/
theorem value_lt {x : Binary64} (hx : x.isFinite = true) {n : Nat}
    (h : n * 2 ^ 1074 = x.significand * 2 ^ x.scale) : n < 10 ^ 310 := by
  have hpow : 2 ^ x.scale ≤ 2 ^ 2045 := Nat.pow_le_pow_right Nat.two_pos (scale_le hx)
  have hle : x.significand * 2 ^ x.scale < 2 ^ 53 * 2 ^ 2045 :=
    Nat.lt_of_lt_of_le (Nat.mul_lt_mul_of_pos_right x.significand_lt (Nat.two_pow_pos _))
      (Nat.mul_le_mul_left _ hpow)
  have hbound : 2 ^ 53 * 2 ^ 2045 ≤ 10 ^ 310 * 2 ^ 1074 := by decide +kernel
  rw [← h] at hle
  exact Nat.lt_of_mul_lt_mul_right (Nat.lt_of_lt_of_le hle hbound)

/-- Powers of five keep up with powers of ten as far as the exponents of the format go. -/
theorem pow_ten_le_pow_five {k : Nat} (hk : k ≤ 1074) : 10 ^ (k - 331) ≤ 5 ^ k := by
  by_cases hsmall : k ≤ 331
  · rw [Nat.sub_eq_zero_of_le hsmall, Nat.pow_zero]
    exact Nat.one_le_pow _ _ (by decide)
  · obtain ⟨j, rfl⟩ : ∃ j, k = 331 + j := ⟨k - 331, by omega⟩
    have hbound : 2 ^ 743 ≤ 5 ^ 331 := by decide +kernel
    have htwo : 2 ^ j ≤ 5 ^ 331 :=
      Nat.le_trans (Nat.pow_le_pow_right Nat.two_pos (by omega)) hbound
    rw [Nat.add_sub_cancel_left, Nat.pow_add, show 10 = 2 * 5 from rfl, Nat.mul_pow]
    exact Nat.mul_le_mul_right _ htwo

/-- The exact value of a finite number is a decimal that is rounded to it. -/
theorem magnitude_exact {x : Binary64} (hx : x.isFinite = true) (hzero : x.magnitude ≠ 0) :
    x.exact.magnitude = x.magnitude := by
  have hsig := significand_ne_zero hzero
  obtain ⟨hratio, hden⟩ := x.ratio_eq
  unfold exact
  simp only [Nat.pow_eq]
  split
  · next h =>
      -- A scale of 1074 or more makes a natural number.
      have hone : x.ratio.2 = 1 := by rw [ratio, if_pos h]
      rw [hone, Nat.one_mul] at hratio
      have hlength := length_digits_le (by decide) (value_lt hx hratio)
      have hnum : x.ratio.1 ≠ 0 := by
        rw [ratio, if_pos h]
        exact Nat.mul_ne_zero hsig (Nat.ne_of_gt (Nat.two_pow_pos _))
      refine Decimal.magnitude_of_exact hx hnum ?_ ?_ ?_
      · simp only [Decimal.order]
        omega
      · simp only [Decimal.order]
        omega
      · rw [Decimal.ratio_natural, hratio, Nat.one_mul]
  · next h =>
      -- The value is `significand / 2 ^ k`, which is `significand * 5 ^ k / 10 ^ k`.
      obtain ⟨k, hk⟩ : ∃ k, x.scale + k = 1074 := ⟨1074 - x.scale, by omega⟩
      have hfive : 5 ^ k ≠ 0 := Nat.ne_of_gt (Nat.pow_pos (by decide))
      rw [show 1074 - x.scale = k by omega]
      have hlow : k - 331 < (digits (x.significand * 5 ^ k)).length := by
        refine lt_length_digits (Nat.le_trans (pow_ten_le_pow_five (by omega)) ?_)
        exact Nat.le_mul_of_pos_left _ (Nat.pos_of_ne_zero hsig)
      have hhigh : (digits (x.significand * 5 ^ k)).length ≤ 310 + k := by
        refine length_digits_le (by omega) ?_
        have hsignificand : x.significand < 10 ^ 310 :=
          Nat.lt_of_lt_of_le x.significand_lt (by decide +kernel)
        rw [Nat.pow_add]
        exact Nat.mul_lt_mul_of_lt_of_le hsignificand (Nat.pow_le_pow_left (by decide) k)
          (Nat.pow_pos (by decide))
      refine Decimal.magnitude_of_exact hx (Nat.mul_ne_zero hsig hfive) ?_ ?_ ?_
      · simp only [Decimal.order]
        omega
      · simp only [Decimal.order]
        omega
      · simp only [Decimal.ratio, Nat.pow_eq]
        rw [if_neg (by omega), show (-((x.scale : Int) - 1074)).toNat = k by omega, ← hk,
          Nat.pow_add, show 10 = 2 * 5 from rfl, Nat.mul_pow]
        ring

/-- The shortest decimal of a number is rounded to that number. -/
theorem magnitude_shortest {x : Binary64} (hx : x.isFinite = true) (hzero : x.magnitude ≠ 0)
    (tie : Tie) : (x.shortest tie).magnitude = x.magnitude := by
  unfold shortest
  cases hfound : (List.range 17).findSome? fun n => x.withDigits? tie (n + 1) with
  | none => exact magnitude_exact hx hzero
  | some d =>
      -- The search accepts a decimal only if it is rounded to the number.
      obtain ⟨n, -, hd⟩ := List.exists_of_findSome?_eq_some hfound
      have hfind := List.find?_some hd
      simpa using hfind

end Binary64

end Scim.Number
