import Scim.Proofs.Number.Rounding

/-!
# `Scim.Proofs.Number.Range`: the numbers that are infinite

A decimal may be too great for the format, and is then rounded to infinity. The least decimal of
this kind lies half way between the greatest finite number, `2 ^ 1024 - 2 ^ 971`, and `2 ^ 1024`,
which would be the next one: the significand `2 ^ 53 - 1` is odd, so the tie goes up. This is
`overflowBound`.

`nearestMagnitude_eq_infinity_iff` says so for quotients, by the place of the leading bit:

* `rounded_lt_infinity`: below the greatest exponent nothing is rounded that far;
* `infinity_le_rounded`: above it everything is infinite;
* `infinity_le_rounded_iff_of_log2_eq`: at the greatest exponent itself the tie decides, which
  `even_le_divNearestEven_iff` is about.

`Decimal.magnitude_eq_infinity_iff` is the same for decimals. Their reader answers at once where the
order of magnitude decides, so `ratio_lt_of_order_nonpos` and `pow_le_ratio_of_lt_order` compare the
order with the value. `isFinite_ofMagnitude` is what follows for the number that is read.
-/

set_option autoImplicit false

namespace Scim.Number

namespace Binary64

/-- The least number that is rounded to infinity. -/
def overflowBound : Nat := 2 ^ 1024 - 2 ^ 970

section
variable {num den n : Nat}

/-- Rounding does not go past a whole number that the quotient does not reach. -/
theorem divNearestEven_le (h : num < n * den) : divNearestEven num den ≤ n := by
  have hlt : num / den < n := Nat.div_lt_of_lt_mul (by rwa [Nat.mul_comm])
  unfold divNearestEven
  split <;> omega

/-- Rounding does not fall short of a whole number that the quotient reaches. -/
theorem le_divNearestEven (hden : 0 < den) (h : n * den ≤ num) : n ≤ divNearestEven num den := by
  have hle : n ≤ num / den := (Nat.le_div_iff_mul_le hden).mpr h
  unfold divNearestEven
  split <;> omega

/-- The even number `2 * n + 2` is reached from one half below it on. -/
theorem even_le_divNearestEven_iff (hden : 0 < den) :
    2 * n + 2 ≤ divNearestEven num den ↔ (4 * n + 3) * den ≤ 2 * num := by
  have hsplit := Nat.div_add_mod num den
  have hmod := Nat.mod_lt num hden
  have hbound : (4 * n + 3) * den = 4 * (n * den) + 3 * den := by ring
  unfold divNearestEven
  generalize num / den = q at *
  generalize num % den = r at *
  -- Only a quotient just below the number depends on the rest.
  rcases Nat.lt_trichotomy q (2 * n + 1) with hq | rfl | hq
  · have hle : den * q ≤ den * (2 * n) := Nat.mul_le_mul_left den (by omega)
    rw [show den * (2 * n) = 2 * (n * den) by ring] at hle
    split <;> omega
  · rw [show den * (2 * n + 1) = 2 * (n * den) + den by ring] at hsplit
    split <;> omega
  · have hle : den * (2 * n + 2) ≤ den * q := Nat.mul_le_mul_left den (by omega)
    rw [show den * (2 * n + 2) = 2 * (n * den) + 2 * den by ring] at hle
    split <;> omega

end

/-- The magnitude before it is cut off at infinity, for a quotient in units of the least positive
number. -/
def rounded (scaled den : Nat) : Nat :=
  (Nat.log2 (scaled / den) - 52) * 2 ^ 52 +
    divNearestEven scaled (den * 2 ^ (Nat.log2 (scaled / den) - 52))

/-- The nearest magnitude is the rounded one, cut off at infinity. -/
theorem nearestMagnitude_eq (num den : Nat) :
    nearestMagnitude num den = min (rounded (num * 2 ^ 1074) den) infinityMagnitude :=
  rfl

/-- The bound in units of the least positive number. -/
theorem overflowBound_scaled : overflowBound * 2 ^ 1074 = (2 ^ 54 - 1) * 2 ^ 2044 := by
  decide +kernel

section
variable {scaled den : Nat}

/-- Below the greatest exponent, neither the rounded magnitude nor the quotient reaches the bound.
-/
theorem rounded_lt_infinity (hden : 0 < den) (hlog : Nat.log2 (scaled / den) < 2097) :
    rounded scaled den < infinityMagnitude ∧ scaled < overflowBound * 2 ^ 1074 * den := by
  have hlt : scaled < 2 ^ (Nat.log2 (scaled / den) + 1) * den :=
    (Nat.div_lt_iff_lt_mul hden).mp Nat.lt_log2_self
  constructor
  · have hround : divNearestEven scaled (den * 2 ^ (Nat.log2 (scaled / den) - 52)) ≤ 2 ^ 53 := by
      refine divNearestEven_le (Nat.lt_of_lt_of_le hlt ?_)
      rw [Nat.mul_left_comm, ← Nat.pow_add, Nat.mul_comm den]
      exact Nat.mul_le_mul_right den (Nat.pow_le_pow_right Nat.two_pos (by omega))
    unfold rounded infinityMagnitude
    omega
  · refine Nat.lt_of_lt_of_le hlt (Nat.mul_le_mul_right den ?_)
    refine Nat.le_trans (Nat.pow_le_pow_right Nat.two_pos (Nat.succ_le_of_lt hlog)) ?_
    decide +kernel

/-- Above the greatest exponent, both do. -/
theorem infinity_le_rounded (hden : 0 < den) (hlog : 2097 < Nat.log2 (scaled / den)) :
    infinityMagnitude ≤ rounded scaled den ∧ overflowBound * 2 ^ 1074 * den ≤ scaled := by
  have hle : 2 ^ Nat.log2 (scaled / den) * den ≤ scaled := by
    refine (Nat.le_div_iff_mul_le hden).mp (Nat.log2_self_le ?_)
    intro hzero
    simp [hzero] at hlog
  constructor
  · have hround : 2 ^ 52 ≤ divNearestEven scaled (den * 2 ^ (Nat.log2 (scaled / den) - 52)) := by
      refine le_divNearestEven (Nat.mul_pos hden (Nat.two_pow_pos _)) (Nat.le_trans ?_ hle)
      rw [Nat.mul_left_comm, ← Nat.pow_add, Nat.mul_comm den]
      exact Nat.mul_le_mul_right den (Nat.pow_le_pow_right Nat.two_pos (by omega))
    unfold rounded infinityMagnitude
    omega
  · refine Nat.le_trans (Nat.mul_le_mul_right den ?_) hle
    refine Nat.le_trans ?_ (Nat.pow_le_pow_right Nat.two_pos (Nat.succ_le_of_lt hlog))
    decide +kernel

/-- At the greatest exponent the significand may be rounded up to the next power of two. -/
theorem infinity_le_rounded_iff_of_log2_eq (hden : 0 < den)
    (hlog : Nat.log2 (scaled / den) = 2097) :
    infinityMagnitude ≤ rounded scaled den ↔ overflowBound * 2 ^ 1074 * den ≤ scaled := by
  have hround : 2 * (2 ^ 52 - 1) + 2 ≤ divNearestEven scaled (den * 2 ^ 2045) ↔
      (4 * (2 ^ 52 - 1) + 3) * (den * 2 ^ 2045) ≤ 2 * scaled :=
    even_le_divNearestEven_iff (Nat.mul_pos hden (Nat.two_pow_pos 2045))
  have hhalf : (4 * (2 ^ 52 - 1) + 3) * (den * 2 ^ 2045)
      = 2 * (overflowBound * 2 ^ 1074 * den) := by
    have hpow : 2 ^ 2045 = 2 ^ 2044 * 2 := by decide +kernel
    rw [overflowBound_scaled, hpow]
    generalize 2 ^ 2044 = unit
    ring
  rw [hhalf, Nat.mul_le_mul_left_iff Nat.two_pos] at hround
  rw [← hround, rounded, hlog, show 2097 - 52 = 2045 from rfl]
  generalize divNearestEven scaled (den * 2 ^ 2045) = significand
  unfold infinityMagnitude
  omega

end

/-- A quotient is rounded to infinity exactly if it is not below the bound. -/
theorem nearestMagnitude_eq_infinity_iff {num den : Nat} (hden : 0 < den) :
    nearestMagnitude num den = infinityMagnitude ↔ overflowBound * den ≤ num := by
  have hscaled : overflowBound * den ≤ num ↔
      overflowBound * 2 ^ 1074 * den ≤ num * 2 ^ 1074 := by
    rw [Nat.mul_right_comm, Nat.mul_le_mul_right_iff (Nat.two_pow_pos _)]
  rw [nearestMagnitude_eq, hscaled, min_eq_right_iff]
  rcases Nat.lt_trichotomy (Nat.log2 (num * 2 ^ 1074 / den)) 2097 with hlog | hlog | hlog
  · obtain ⟨hlt, hbelow⟩ := rounded_lt_infinity hden hlog
    exact iff_of_false (Nat.not_le_of_lt hlt) (Nat.not_le_of_lt hbelow)
  · exact infinity_le_rounded_iff_of_log2_eq hden hlog
  · obtain ⟨hle, habove⟩ := infinity_le_rounded hden hlog
    exact iff_of_true hle habove

end Binary64

namespace Decimal

variable {d : Decimal}

/-- No decimal has a magnitude beyond infinity. -/
theorem magnitude_le (d : Decimal) : d.magnitude ≤ Binary64.infinityMagnitude := by
  unfold magnitude
  split
  · exact Nat.zero_le _
  · split
    · exact Nat.le_refl _
    · exact Nat.min_le_right _ _

/-- A decimal of no positive order is below one. -/
theorem ratio_lt_of_order_nonpos (hc : d.coefficient ≠ 0) (h : d.order ≤ 0) :
    d.ratio.1 < d.ratio.2 := by
  obtain ⟨k, hk, -, hlt⟩ := exists_length_digits hc
  rw [order, hk] at h
  rw [ratio, if_neg (by omega)]
  exact Nat.lt_of_lt_of_le hlt (Nat.pow_le_pow_right (by decide) (by omega))

/-- A decimal of a greater order is not below the power of ten. -/
theorem pow_le_ratio_of_lt_order (hc : d.coefficient ≠ 0) {n : Nat} (h : n < d.order) :
    10 ^ n * d.ratio.2 ≤ d.ratio.1 := by
  obtain ⟨k, hk, hle, -⟩ := exists_length_digits hc
  rw [order, hk] at h
  unfold ratio
  simp only [Nat.pow_eq]
  split
  · next hexp =>
      calc 10 ^ n * 1 ≤ 10 ^ (k + d.exponent.toNat) := by
            rw [Nat.mul_one]
            exact Nat.pow_le_pow_right (by decide) (by omega)
        _ = 10 ^ k * 10 ^ d.exponent.toNat := Nat.pow_add 10 k _
        _ ≤ d.coefficient * 10 ^ d.exponent.toNat := Nat.mul_le_mul_right _ hle
  · next hexp =>
      rw [← Nat.pow_add]
      exact Nat.le_trans (Nat.pow_le_pow_right (by decide) (by omega)) hle

/-- A decimal is rounded to infinity exactly if it is not below the bound. -/
theorem magnitude_eq_infinity_iff :
    d.magnitude = Binary64.infinityMagnitude ↔ Binary64.overflowBound * d.ratio.2 ≤ d.ratio.1 := by
  have hpos : 0 < Binary64.overflowBound := by decide +kernel
  have hbelow : d.ratio.1 < d.ratio.2 → ¬ Binary64.overflowBound * d.ratio.2 ≤ d.ratio.1 := by
    intro hlt
    exact Nat.not_le_of_lt (Nat.lt_of_lt_of_le hlt (Nat.le_mul_of_pos_left _ hpos))
  unfold magnitude
  split
  · next hzero =>
      refine iff_of_false (by decide) (hbelow ?_)
      by_cases hc : d.coefficient = 0
      · have hnum : d.ratio.1 = 0 := by
          unfold ratio
          split <;> simp [hc]
        rw [hnum]
        exact d.ratio_pos
      · exact ratio_lt_of_order_nonpos hc (by omega)
  · next hrange =>
      split
      · next hhigh =>
          -- The bound is below the power of ten from which nothing is computed.
          have hle : Binary64.overflowBound ≤ 10 ^ 310 := by decide +kernel
          refine iff_of_true rfl (Nat.le_trans (Nat.mul_le_mul_right _ hle) ?_)
          exact pow_le_ratio_of_lt_order (fun hc => hrange (.inl hc)) hhigh
      · exact Binary64.nearestMagnitude_eq_infinity_iff d.ratio_pos

end Decimal

namespace Binary64

/-- The bits of a number without a sign are its magnitude. -/
theorem toNat_bits_ofMagnitude (d : Decimal) :
    (ofMagnitude false d.magnitude).bits.toNat = d.magnitude := by
  have hlt : d.magnitude < 2 ^ 64 := Nat.lt_of_le_of_lt d.magnitude_le (by decide)
  simp only [ofMagnitude, Bool.false_eq_true, if_false, UInt64.toNat_ofNat', Nat.mod_eq_of_lt hlt]

/-- A number that is read without a sign is not negative. -/
theorem isNegative_ofMagnitude (d : Decimal) :
    (ofMagnitude false d.magnitude).isNegative = false := by
  have hlt : d.magnitude < 2 ^ 63 := Nat.lt_of_le_of_lt d.magnitude_le (by decide)
  simpa [isNegative, toNat_bits_ofMagnitude] using hlt

/-- A decimal below the bound is read as a finite number. -/
theorem isFinite_ofMagnitude {d : Decimal} (h : d.ratio.1 < overflowBound * d.ratio.2) :
    (ofMagnitude false d.magnitude).isFinite = true := by
  have hne : d.magnitude ≠ infinityMagnitude :=
    fun heq => Nat.not_le_of_lt h (Decimal.magnitude_eq_infinity_iff.mp heq)
  have hlt := Nat.lt_of_le_of_ne d.magnitude_le hne
  have hmod : d.magnitude % Nat.pow 2 63 = d.magnitude :=
    Nat.mod_eq_of_lt (Nat.lt_trans hlt (by decide))
  rw [isFinite, magnitude, toNat_bits_ofMagnitude, hmod, decide_eq_true hlt]

end Binary64

end Scim.Number
