import Scim.Proofs.Number.Rounding
import Scim.Value

/-!
# `Scim.Proofs.Number.Text`: numbers read back from their text

A literal number of an expression is a run of digits, or two with a point between them. `Digits` is
such a run, and `Decimal.read?_digits` and `Decimal.read?_point` say which decimal is read from the
two forms.

Numbers that are not negative are written in these forms and read back unchanged:

* `ofNumber?_integerText`: integers, as runs of digits.
* `ofNumber?_write`: finite floats without a sign, with a point. `WritesMagnitude` says of a text
  that it has this form and is rounded to a given magnitude. The positional form of a decimal writes
  the magnitude of the decimal, wherever the point falls (`positional_writes`), and the decimal is
  the shortest one of the number, which is rounded to it (`writeFinite_writes`).

A text that starts with a digit is neither signed nor a word such as `inf`, so it is read as a
decimal (`Binary64.read?_of_decimal`). With a point in it, it is no integer, so it is not read as
one before that.
-/

set_option autoImplicit false

namespace Scim.Number

/-- A run of digits, at least one. -/
structure Digits (ds : List Char) : Prop where
  ne_nil : ds ≠ []
  all : ∀ c ∈ ds, c.isDigit = true

/-- A number is written in a run of digits. -/
theorem digits_digits (n : Nat) : Digits (digits n) :=
  ⟨digits_ne_nil n, all_isDigit_digits n⟩

namespace Digits

variable {ds es : List Char}

/-- Digits behind a run of digits are a longer run. -/
theorem append (hds : Digits ds) (hes : ∀ c ∈ es, c.isDigit = true) : Digits (ds ++ es) :=
  ⟨by simp [hds.ne_nil], fun c hc => (List.mem_append.mp hc).elim (hds.all c) (hes c)⟩

/-- All of a run of digits is a run. -/
theorem takeWhile_eq (hds : Digits ds) : ds.takeWhile Char.isDigit = ds := by
  have h : (ds ++ []).takeWhile Char.isDigit = ds ++ [] := List.takeWhile_append_of_pos hds.all
  rwa [List.append_nil] at h

/-- And nothing is left of it. -/
theorem dropWhile_eq (hds : Digits ds) : ds.dropWhile Char.isDigit = [] := by
  have h : (ds ++ []).dropWhile Char.isDigit = [] := List.dropWhile_append_of_pos hds.all
  rwa [List.append_nil] at h

/-- In front of a point the run ends. -/
theorem takeWhile_point (hds : Digits ds) (rest : List Char) :
    (ds ++ '.' :: rest).takeWhile Char.isDigit = ds := by
  rw [List.takeWhile_append_of_pos hds.all, List.takeWhile_cons_of_neg (by decide),
    List.append_nil]

/-- And the point is left. -/
theorem dropWhile_point (hds : Digits ds) (rest : List Char) :
    (ds ++ '.' :: rest).dropWhile Char.isDigit = '.' :: rest := by
  rw [List.dropWhile_append_of_pos hds.all, List.dropWhile_cons_of_neg (by decide)]

end Digits

/-! ### Reading decimals -/

/-- A run of digits is a decimal without a fraction. -/
theorem Decimal.read?_digits {ds : List Char} (hds : Digits ds) :
    Decimal.read? ds = some ⟨ofDigits ds, 0⟩ := by
  unfold Decimal.read?
  simp only [hds.takeWhile_eq, hds.dropWhile_eq, List.append_nil, hds.ne_nil, if_false,
    readExponent?, Option.map_some, List.length_nil]
  rfl

/-- With a point, the digits behind it say how far the coefficient is shifted. -/
theorem Decimal.read?_point {whole fraction : List Char} (hwhole : Digits whole)
    (hfraction : Digits fraction) :
    Decimal.read? (whole ++ '.' :: fraction)
      = some ⟨ofDigits (whole ++ fraction), -fraction.length⟩ := by
  unfold Decimal.read?
  simp only [hwhole.takeWhile_point, hwhole.dropWhile_point, hfraction.takeWhile_eq,
    hfraction.dropWhile_eq, List.append_eq_nil_iff, hwhole.ne_nil, false_and, if_false,
    readExponent?, Option.map_some]
  simp

/-- A text that starts with a digit is neither signed nor a word. -/
theorem Binary64.read?_of_decimal {c : Char} {cs : List Char} {d : Decimal}
    (hc : c.isDigit = true) (h : Decimal.read? (c :: cs) = some d) :
    Binary64.read? (String.ofList (c :: cs)) = some (ofMagnitude false d.magnitude) := by
  have hsign : splitSign (c :: cs) = (false, c :: cs) := by
    unfold splitSign
    split
    · next h => cases h; simp [Char.isDigit] at hc
    · next h => cases h; simp [Char.isDigit] at hc
    · rfl
  -- The words that are tried first start with letters.
  have hword : ∀ w : String, (w.toList.head?.all fun k => !k.isDigit) = true →
      String.ofList ((c :: cs).map Char.toLower) ≠ w := by
    rintro w hw rfl
    have hlower : c.toLower = c := by
      unfold Char.toLower
      rw [dif_neg]
      simp only [Char.isDigit, Bool.and_eq_true, decide_eq_true_eq] at hc
      intro hupper
      exact absurd (UInt32.le_trans hupper.1 hc.2) (by decide)
    simp [hlower, hc] at hw
  unfold Binary64.read?
  rw [String.toList_ofList, hsign]
  simp only
  rw [if_neg (not_or.mpr ⟨hword "inf" (by decide), hword "infinity" (by decide)⟩),
    if_neg (hword "nan" (by decide)), h]
  rfl

/-! ### Writing floats -/

/-- A text of digits with a point among them that is rounded to the given magnitude. -/
def WritesMagnitude (text : List Char) (magnitude : Nat) : Prop :=
  ∃ whole fraction, text = whole ++ '.' :: fraction ∧ Digits whole ∧ Digits fraction ∧
    Decimal.magnitude ⟨ofDigits (whole ++ fraction), -fraction.length⟩ = magnitude

/-- Zeros are digits. -/
theorem digits_zeros {k : Nat} : ∀ c ∈ List.replicate k '0', c.isDigit = true := by
  intro c hc
  rw [List.eq_of_mem_replicate hc]
  decide

/-- The positional form of a decimal is rounded like the decimal, wherever the point falls. -/
theorem positional_writes {c : Nat} (hc : c ≠ 0) (e : Int) :
    WritesMagnitude (Layout.positional (digits c) ((digits c).length + e))
      (Decimal.magnitude ⟨c, e⟩) := by
  have hds := digits_digits c
  have hlength := List.length_pos_iff.mpr hds.ne_nil
  unfold Layout.positional
  split
  · -- The point is in front of the digits.
    next hpoint =>
      refine ⟨['0'], List.replicate (-((digits c).length + e)).toNat '0' ++ digits c, rfl,
        ⟨by simp, by simp⟩, ⟨by simp [hds.ne_nil], ?_⟩, ?_⟩
      · intro k hk
        exact (List.mem_append.mp hk).elim (digits_zeros k) (hds.all k)
      · rw [List.singleton_append, ofDigits_cons_zero, ofDigits_append, ofDigits_zeros,
          ofDigits_digits, Nat.zero_mul, Nat.zero_add, List.length_append, List.length_replicate]
        congr 2
        omega
  · split
    · -- The point is among the digits.
      next hpos hpoint =>
        obtain ⟨k, hk⟩ : ∃ k : Nat, (digits c).length + e = k :=
          ⟨_, (Int.toNat_of_nonneg (by omega)).symm⟩
        rw [hk, Int.toNat_natCast]
        refine ⟨(digits c).take k, (digits c).drop k, rfl,
          ⟨?_, fun a ha => hds.all a (List.mem_of_mem_take ha)⟩,
          ⟨?_, fun a ha => hds.all a (List.mem_of_mem_drop ha)⟩, ?_⟩
        · simp only [ne_eq, List.take_eq_nil_iff, hds.ne_nil, or_false]
          omega
        · simp only [ne_eq, List.drop_eq_nil_iff]
          omega
        · rw [List.take_append_drop, ofDigits_digits, List.length_drop]
          congr 2
          omega
    · -- The point is behind the digits, and zeros come between.
      next hpos hpoint =>
        obtain ⟨k, rfl⟩ : ∃ k : Nat, e = k := ⟨_, (Int.toNat_of_nonneg (by omega)).symm⟩
        rw [show ((digits c).length + (k : Int)).toNat - (digits c).length = k by omega]
        refine ⟨digits c ++ List.replicate k '0', ['0'], by simp, hds.append digits_zeros,
          ⟨by simp, by simp⟩, ?_⟩
        have hvalue : ofDigits (digits c ++ List.replicate k '0' ++ ['0']) = c * 10 ^ (k + 1) := by
          rw [List.append_assoc, ← List.replicate_succ', ofDigits_append, ofDigits_digits,
            ofDigits_zeros, List.length_replicate, Nat.add_zero]
        rw [hvalue, ← Decimal.magnitude_shift hc (k + 1) k]
        congr 2
        simp only [List.length_singleton]
        omega

/-- A finite number is written to a text that is rounded to its magnitude, zero included. -/
theorem writeFinite_writes {x : Binary64} (hx : x.isFinite = true) :
    WritesMagnitude (Value.floatLayout.writeFinite x) x.magnitude := by
  unfold Layout.writeFinite
  split
  · next hzero =>
      refine ⟨['0'], ['0'], rfl, ⟨by simp, by simp⟩, ⟨by simp, by simp⟩, ?_⟩
      rw [hzero]
      decide
  · next hzero =>
      split
      · -- All digits of a natural number, and a fraction of zero.
        next hintegral =>
          have hdvd : x.ratio.1 % x.ratio.2 = 0 := by
            simp only [Binary64.isIntegral, Bool.and_eq_true, decide_eq_true_eq] at hintegral
            exact hintegral.2.2
          obtain ⟨hratio, hden⟩ := x.ratio_eq
          have hvalue : x.ratio.1 / x.ratio.2 * 2 ^ 1074 = x.significand * 2 ^ x.scale := by
            rw [← Nat.div_mul_cancel (Nat.dvd_of_mod_eq_zero hdvd), Nat.mul_comm _ x.ratio.2,
              Nat.mul_assoc] at hratio
            exact Nat.eq_of_mul_eq_mul_left hden hratio
          generalize x.ratio.1 / x.ratio.2 = n at hvalue ⊢
          have hn : n ≠ 0 := by
            rintro rfl
            rw [Nat.zero_mul] at hvalue
            exact absurd hvalue.symm (Nat.mul_ne_zero (Binary64.significand_ne_zero hzero)
              (Nat.ne_of_gt (Nat.two_pow_pos _)))
          have hexact : Decimal.magnitude ⟨n, 0⟩ = x.magnitude := by
            have hlength := length_digits_le (by decide) (Binary64.value_lt hx hvalue)
            refine Decimal.magnitude_of_exact hx hn ?_ ?_ ?_
            · simp only [Decimal.order]
              omega
            · simp only [Decimal.order]
              omega
            · rw [Decimal.ratio_natural, hvalue, Nat.one_mul]
          refine ⟨digits n, ['0'], rfl, digits_digits n, ⟨by simp, by simp⟩, ?_⟩
          have hten : ofDigits (digits n ++ ['0']) = n * 10 ^ 1 := by
            rw [ofDigits_append, ofDigits_digits]
            rfl
          rw [hten, ← hexact, ← Decimal.magnitude_shift hn 1 0]
          rfl
      · -- The shortest digits, with the point where it belongs.
        have hshortest := Binary64.magnitude_shortest hx hzero .up
        have hcoefficient : (x.shortest .up).coefficient ≠ 0 := by
          intro h
          rw [Decimal.magnitude, if_pos (.inl h)] at hshortest
          exact hzero hshortest.symm
        have hwrites := positional_writes hcoefficient (x.shortest .up).exponent
        rw [hshortest] at hwrites
        exact hwrites

/-- A number without a sign is told by its magnitude. -/
theorem ofMagnitude_magnitude {x : Binary64} (h : x.isNegative = false) :
    Binary64.ofMagnitude false x.magnitude = x := by
  have hlt : x.bits.toNat < 2 ^ 63 := by simpa [Binary64.isNegative] using h
  obtain ⟨bits⟩ := x
  simp only [Binary64.ofMagnitude, Binary64.magnitude, Nat.pow_eq, Nat.mod_eq_of_lt hlt]
  simp

/-- What writes a magnitude is read as the number of that magnitude. -/
theorem read?_of_writes {text : List Char} {magnitude : Nat} (h : WritesMagnitude text magnitude) :
    Binary64.read? (String.ofList text) = some (Binary64.ofMagnitude false magnitude) := by
  obtain ⟨whole, fraction, rfl, hwhole, hfraction, rfl⟩ := h
  have hread := Decimal.read?_point hwhole hfraction
  obtain ⟨c, cs, rfl⟩ := List.exists_cons_of_ne_nil hwhole.ne_nil
  exact Binary64.read?_of_decimal (hwhole.all c List.mem_cons_self) hread

/-- A finite number without a sign is written as its layout says, with nothing in front. -/
theorem write_eq {x : Binary64} (hx : x.isFinite = true) (hsign : x.isNegative = false)
    (layout : Layout) : layout.write x = String.ofList (layout.writeFinite x) := by
  have hnan : x.isNaN = false := by
    have hlt : x.magnitude < Binary64.infinityMagnitude := by simpa [Binary64.isFinite] using hx
    simp only [Binary64.isNaN, decide_eq_false_iff_not]
    omega
  simp [Layout.write, hnan, hx, hsign]

/-- An integer of 64 bits fits into 64 bits. -/
theorem toInt64?_toInt (n : Int64) : toInt64? n.toInt = some n := by
  unfold toInt64?
  rw [if_pos ⟨Int64.minValue_le_toInt n, Int64.toInt_le n⟩, Int64.ofInt_toInt]

end Scim.Number

namespace Scim.Value

open Number

/-- A finite float without a sign is read back from its text, as a float. -/
theorem ofNumber?_write {x : Binary64} (hx : x.isFinite = true) (hsign : x.isNegative = false) :
    ofNumber? (floatLayout.write x) = some (.float x) := by
  have hwrites := writeFinite_writes hx
  have hpoint : '.' ∈ floatLayout.writeFinite x := by
    obtain ⟨whole, fraction, htext, -, -, -⟩ := hwrites
    simp [htext]
  rw [write_eq hx hsign, ofNumber?, String.toList_ofList, if_pos hpoint, read?_of_writes hwrites,
    ofMagnitude_magnitude hsign]
  rfl

/-- An integer without a sign is read back from its text, as an integer. -/
theorem ofNumber?_integerText {n : Int64} (hn : 0 ≤ n.toInt) :
    ofNumber? (integerText n.toInt) = some (.integer n) := by
  have hds := digits_digits n.toInt.natAbs
  have hpoint : '.' ∉ digits n.toInt.natAbs := fun h => by simpa using hds.all '.' h
  -- Digits without a point are read as an integer, and this one fits into 64 bits.
  have hread : readInteger? (digits n.toInt.natAbs) = some n.toInt := by
    rw [readInteger?_of_digits hds.ne_nil hds.all, ofDigits_digits]
    simp [Int.natAbs_of_nonneg hn]
  rw [integerText, if_neg (by omega), ofNumber?, String.toList_ofList, if_neg hpoint, hread,
    Option.bind_some, toInt64?_toInt]

end Scim.Value
