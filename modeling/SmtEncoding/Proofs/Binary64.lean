import Mathlib
import SmtEncoding.Proofs.Value

/-!
# The numbers of doubles

`Double.ieee?` is the number that IEEE 754 gives a pattern of 64 bits, written with a fraction
between zero and one and the biased exponent.  It is the value of the double
(`Double.toRat?_eq_ieee?`).

Every finite double is a whole multiple of `2 ^ (-1074)`, and the multiple (`Double.units`) grows
with the exponent field first and then with the fraction field.  So finite doubles of one value have
the same fields, but for the two zeros (`Double.value_eq_iff_equal`).  In lowest terms the divisor
of a finite double is a power of two (`Double.exists_den_eq_two_pow`).
-/

namespace SmtEncoding.Double

variable {x y : Double}

/-! ## Fields -/

theorem fractionField_lt (x : Double) : x.fractionField < 2 ^ 52 :=
  Nat.mod_lt _ (Nat.two_pow_pos 52)

/-- The fields are all that there is in a pattern. -/
theorem eq_of_fields_eq (hnegative : x.negative = y.negative)
    (hexponent : x.exponentField = y.exponentField)
    (hfraction : x.fractionField = y.fractionField) : x = y := by
  have hx : x.bits.toNat < 2 ^ 64 := x.bits.toNat_lt
  have hy : y.bits.toNat < 2 ^ 64 := y.bits.toNat_lt
  simp only [negative, decide_eq_decide, Nat.pow_eq] at hnegative
  simp only [exponentField, fractionField, Nat.pow_eq] at hexponent hfraction
  have hbits : x.bits = y.bits := UInt64.toNat.inj (by omega)
  cases x
  cases y
  exact congrArg mk hbits

/-! ## IEEE 754 -/

/-- The number that IEEE 754 gives a pattern of a sign bit, 11 bits of exponent with bias 1023 and
52 bits of fraction.  A number whose exponent is zero is subnormal: it has the least exponent and
no leading one.  An exponent of all ones gives none. -/
def ieee? (x : Double) : Option Rat :=
  let pattern := x.bits.toBitVec
  let sign := (pattern.extractLsb' 63 1).toNat
  let exponent := (pattern.extractLsb' 52 11).toNat
  let fraction := (pattern.extractLsb' 0 52).toNat
  if exponent = 2047 then none
  else if exponent = 0 then some ((-1) ^ sign * 2 ^ (-1022 : Int) * (fraction / 2 ^ 52))
  else some ((-1) ^ sign * 2 ^ ((exponent : Int) - 1023) * (1 + fraction / 2 ^ 52))

theorem toNat_sign (x : Double) :
    (x.bits.toBitVec.extractLsb' 63 1).toNat = if x.negative then 1 else 0 := by
  have hx : x.bits.toNat < 2 ^ 64 := x.bits.toNat_lt
  rw [BitVec.extractLsb'_toNat, UInt64.toNat_toBitVec, Nat.shiftRight_eq_div_pow]
  by_cases hnegative : 2 ^ 63 ≤ x.bits.toNat
  · have h : x.negative = true := decide_eq_true hnegative
    rw [h, if_pos rfl]
    omega
  · have h : x.negative = false := decide_eq_false hnegative
    rw [h, if_neg Bool.false_ne_true]
    omega

theorem toNat_exponent (x : Double) :
    (x.bits.toBitVec.extractLsb' 52 11).toNat = x.exponentField := by
  rw [BitVec.extractLsb'_toNat, UInt64.toNat_toBitVec, Nat.shiftRight_eq_div_pow]
  rfl

theorem toNat_fraction (x : Double) :
    (x.bits.toBitVec.extractLsb' 0 52).toNat = x.fractionField := by
  rw [BitVec.extractLsb'_toNat, UInt64.toNat_toBitVec, Nat.shiftRight_zero]
  rfl

theorem isFinite_eq_true_iff : x.isFinite = true ↔ x.exponentField ≠ 2047 := decide_eq_true_iff

/-- The exact value of a finite double is its value. -/
theorem toRat?_eq_some_iff {q : Rat} : x.toRat? = some q ↔ x.isFinite = true ∧ x.value = q := by
  by_cases hfinite : x.isFinite = true
  · rw [toRat?_eq_some hfinite, Option.some_inj]
    exact ⟨fun h => ⟨hfinite, h⟩, And.right⟩
  · rw [toRat?, if_neg hfinite]
    exact ⟨fun h => absurd h.symm (Option.some_ne_none q), fun h => absurd h.1 hfinite⟩

/-- The exact value of a double is the number that IEEE 754 gives its pattern. -/
theorem toRat?_eq_ieee? (x : Double) : x.toRat? = x.ieee? := by
  have hsign : ((-1 : Rat)) ^ (if x.negative then 1 else 0) = if x.negative then -1 else 1 := by
    cases x.negative <;> rfl
  simp only [ieee?, toNat_sign, toNat_exponent, toNat_fraction, hsign]
  by_cases hspecial : x.exponentField = 2047
  · have hfinite : ¬ x.isFinite = true := fun h => isFinite_eq_true_iff.mp h hspecial
    rw [toRat?, if_neg hfinite, if_pos hspecial]
  · rw [toRat?_eq_some (isFinite_eq_true_iff.mpr hspecial), if_neg hspecial]
    have htwo : (2 : Rat) ≠ 0 := two_ne_zero
    by_cases hsubnormal : x.exponentField = 0
    · have hscale : x.scale = -1022 - 52 := by
        rw [scale, hsubnormal]
        rfl
      rw [if_pos hsubnormal, value, significand, if_pos hsubnormal, hscale, zpow_sub₀ htwo]
      congr 1
      ring
    · have hscale : x.scale = (x.exponentField : Int) - 1023 - 52 := by
        rw [scale]
        omega
      rw [if_neg hsubnormal, value, significand, if_neg hsubnormal, hscale, zpow_sub₀ htwo,
        Nat.pow_eq]
      congr 1
      push_cast
      ring

/-! ## Multiples of the least number -/

/-- The least positive double. -/
def least : Rat := 2 ^ (-1074 : Int)

theorem least_pos : 0 < least := zpow_pos two_pos _

/-- How many times the least positive double goes into the magnitude of a finite double. -/
def units (x : Double) : Nat := x.significand * 2 ^ (x.exponentField - 1)

/-- A value is a whole number of the least positive one, with a sign. -/
theorem value_eq_units (x : Double) :
    x.value = (if x.negative then -1 else 1) * (x.units * least) := by
  have hscale : x.scale = (x.exponentField - 1 : Nat) + (-1074 : Int) := by
    rw [scale]
    omega
  have hpow : (2 : Rat) ^ x.scale = 2 ^ (x.exponentField - 1) * least := by
    rw [hscale, zpow_add₀ two_ne_zero, zpow_natCast, least]
  rw [value, units, hpow]
  push_cast
  ring

theorem significand_lt (x : Double) : x.significand < 2 ^ 53 := by
  have hfraction := x.fractionField_lt
  rw [significand, Nat.pow_eq]
  split <;> omega

/-- A larger exponent field outweighs any fraction. -/
theorem units_lt (h : x.exponentField < y.exponentField) : x.units < y.units := by
  have hy : 2 ^ 52 * 2 ^ (y.exponentField - 1) ≤ y.units := by
    refine Nat.mul_le_mul_right _ ?_
    rw [significand, if_neg (by omega), Nat.pow_eq]
    exact Nat.le_add_right _ _
  refine lt_of_lt_of_le ?_ hy
  -- The exponents zero and one have the same scale, so a subnormal number needs a smaller bound.
  by_cases hzero : x.exponentField = 0
  · have hx : x.units = x.fractionField := by
      rw [units, significand, if_pos hzero, hzero, Nat.zero_sub, pow_zero, mul_one]
    rw [hx]
    exact lt_of_lt_of_le x.fractionField_lt (Nat.le_mul_of_pos_right _ (Nat.two_pow_pos _))
  · calc x.units < 2 ^ 53 * 2 ^ (x.exponentField - 1) :=
          Nat.mul_lt_mul_of_pos_right x.significand_lt (Nat.two_pow_pos _)
      _ = 2 ^ 52 * 2 ^ (x.exponentField - 1 + 1) := by rw [pow_succ]; ring
      _ ≤ 2 ^ 52 * 2 ^ (y.exponentField - 1) :=
          Nat.mul_le_mul_left _ (Nat.pow_le_pow_right two_pos (by omega))

/-- Numbers of one magnitude have the same fields, but for the sign. -/
theorem fields_eq_of_units_eq (h : x.units = y.units) :
    x.exponentField = y.exponentField ∧ x.fractionField = y.fractionField := by
  have hexponent : x.exponentField = y.exponentField := by
    rcases lt_trichotomy x.exponentField y.exponentField with hlt | heq | hgt
    · exact absurd h (units_lt hlt).ne
    · exact heq
    · exact absurd h (units_lt hgt).ne'
  have hsignificand : x.significand = y.significand := by
    rw [units, units, hexponent] at h
    exact Nat.eq_of_mul_eq_mul_right (Nat.two_pow_pos _) h
  refine ⟨hexponent, ?_⟩
  rw [significand, significand, hexponent] at hsignificand
  split at hsignificand
  · exact hsignificand
  · exact Nat.add_left_cancel hsignificand

theorem units_eq_zero_iff : x.units = 0 ↔ x.isZero = true := by
  rw [isZero, decide_eq_true_iff, units, Nat.mul_eq_zero, significand]
  have hpow : 2 ^ (x.exponentField - 1) ≠ 0 := (Nat.two_pow_pos _).ne'
  constructor
  · rintro (h | h)
    · split at h
      · rename_i hexponent
        exact ⟨hexponent, h⟩
      · have hone : 0 < Nat.pow 2 52 := Nat.two_pow_pos 52
        omega
    · exact absurd h hpow
  · rintro ⟨hexponent, hfraction⟩
    left
    rw [if_pos hexponent]
    exact hfraction

/-- The zeros are the doubles of value zero. -/
theorem value_eq_zero_iff : x.value = 0 ↔ x.isZero = true := by
  have hsign : (if x.negative then -1 else 1 : Rat) ≠ 0 := by
    cases x.negative <;> simp
  rw [value_eq_units, mul_eq_zero, mul_eq_zero, Nat.cast_eq_zero, ← units_eq_zero_iff]
  simp only [hsign, least_pos.ne', false_or, or_false]

/-- A finite double is below zero exactly if it has the sign and is no zero. -/
theorem value_neg_iff : x.value < 0 ↔ x.negative = true ∧ x.isZero = false := by
  have hmagnitude : 0 ≤ x.units * least := mul_nonneg (Nat.cast_nonneg _) least_pos.le
  have hzero : x.isZero = false ↔ x.value ≠ 0 := by
    rw [Ne, value_eq_zero_iff, Bool.not_eq_true]
  rw [hzero]
  cases hnegative : x.negative with
  | true =>
    have hnonpos : x.value ≤ 0 := by
      rw [value_eq_units, hnegative, if_pos rfl, neg_one_mul]
      exact neg_nonpos.mpr hmagnitude
    exact ⟨fun h => ⟨rfl, h.ne⟩, fun h => lt_of_le_of_ne hnonpos h.2⟩
  | false =>
    have hnonneg : 0 ≤ x.value := by
      rw [value_eq_units, hnegative, if_neg Bool.false_ne_true, one_mul]
      exact hmagnitude
    exact ⟨fun h => absurd h (not_lt.mpr hnonneg), fun h => absurd h.1 Bool.false_ne_true⟩

/-! ## Equality -/

theorem units_eq_of_value_eq (h : x.value = y.value) : x.units = y.units := by
  have habs : ∀ z : Double, |z.value| = z.units * least := by
    intro z
    have hsign : |(if z.negative then -1 else 1 : Rat)| = 1 := by
      cases z.negative <;> simp
    rw [value_eq_units, abs_mul, hsign, one_mul,
      abs_of_nonneg (mul_nonneg (Nat.cast_nonneg _) least_pos.le)]
  have hmagnitude : x.units * least = y.units * least := by
    rw [← habs x, ← habs y, h]
  exact Nat.cast_injective (mul_right_cancel₀ least_pos.ne' hmagnitude)

theorem isNaN_eq_false (h : x.isFinite = true) : x.isNaN = false :=
  decide_eq_false fun hnan => isFinite_eq_true_iff.mp h hnan.1

/-- Finite doubles have one value exactly if they are equal as numbers. -/
theorem value_eq_iff_equal (hx : x.isFinite = true) (hy : y.isFinite = true) :
    x.value = y.value ↔ x.equal y = true := by
  rw [equal, isNaN_eq_false hx, isNaN_eq_false hy]
  simp only [Bool.not_false, Bool.true_and, Bool.or_eq_true, beq_iff_eq, Bool.and_eq_true]
  constructor
  · intro h
    by_cases hzero : x.isZero = true
    · refine .inr ⟨hzero, ?_⟩
      rw [← value_eq_zero_iff, ← h, value_eq_zero_iff]
      exact hzero
    · have hunits : x.units = y.units := units_eq_of_value_eq h
      obtain ⟨hexponent, hfraction⟩ := fields_eq_of_units_eq hunits
      have hnegative : x.negative = y.negative := by
        have hzero' : ¬ y.isZero = true := by rwa [← units_eq_zero_iff, ← hunits, units_eq_zero_iff]
        rw [Bool.eq_iff_iff]
        have hsign := value_neg_iff (x := x)
        rw [h, value_neg_iff] at hsign
        simp only [Bool.not_eq_true] at hzero hzero'
        simpa only [hzero, hzero', and_true] using hsign.symm
      exact .inl (congrArg bits (eq_of_fields_eq hnegative hexponent hfraction))
  · rintro (hbits | ⟨hzero, hzero'⟩)
    · cases x
      cases y
      cases hbits
      rfl
    · rw [value_eq_zero_iff.mpr hzero, value_eq_zero_iff.mpr hzero']

/-! ## Lowest terms -/

/-- The divisor of a double in lowest terms is a power of two. -/
theorem exists_den_eq_two_pow {q : Rat} (h : x.toRat? = some q) : ∃ k, q.den = 2 ^ k := by
  have hdvd : q.den ∣ 2 ^ (-x.scale).toNat := by
    unfold toRat? at h
    split at h
    · cases h
      have hpow : Nat.pow 2 (-x.scale).toNat ≠ 0 := (Nat.two_pow_pos _).ne'
      rw [Rat.den_mkRat, if_neg hpow]
      exact Nat.div_dvd_of_dvd (Nat.gcd_dvd_left _ _)
    · cases h
  obtain ⟨k, _, hk⟩ := (Nat.dvd_prime_pow Nat.prime_two).mp hdvd
  exact ⟨k, hk⟩

end SmtEncoding.Double
