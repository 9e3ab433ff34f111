import Mathlib.Algebra.Order.Group.Nat
import Stacklet.Number.Binary64

/-! # Natural numbers among binary64 numbers

A natural number is rounded to 53 significant bits, half to even, and up to the greatest finite
number that is all that happens to it. It stays as it is just when it has no more bits than that,
trailing zeros apart.
-/

namespace Stacklet

/-! ## Rounding quotients -/

theorem roundHalfEven_mul_right (numerator denominator : Nat) {factor : Nat} (h : 0 < factor) :
    roundHalfEven (numerator * factor) (denominator * factor) =
      roundHalfEven numerator denominator := by
  have hless : ∀ {a b : Nat}, a * factor < b * factor ↔ a < b := Nat.mul_lt_mul_right h
  simp only [roundHalfEven, Nat.mul_div_mul_right _ _ h, Nat.mul_mod_mul_right,
    ← Nat.mul_assoc, hless]

theorem roundHalfEven_of_dvd {numerator denominator : Nat} (hpos : 0 < denominator)
    (h : denominator ∣ numerator) :
    roundHalfEven numerator denominator = numerator / denominator := by
  simp only [roundHalfEven, Nat.mod_eq_zero_of_dvd h, Nat.mul_zero, hpos, if_true]

theorem div_le_roundHalfEven (numerator denominator : Nat) :
    numerator / denominator ≤ roundHalfEven numerator denominator := by
  simp only [roundHalfEven]
  split
  · exact Nat.le_refl _
  · split <;> omega

theorem roundHalfEven_le (numerator denominator : Nat) :
    roundHalfEven numerator denominator ≤ numerator / denominator + 1 := by
  simp only [roundHalfEven]
  split
  · omega
  · split <;> omega

namespace Binary64

/-- A natural number, rounded to 53 significant bits. -/
def rounded (value : Nat) : Nat :=
  roundHalfEven value (2 ^ (value.log2 - 52)) * 2 ^ (value.log2 - 52)

/-- Between two powers of two there are as many numbers as the hidden bit weighs. -/
theorem significand_bounds {value : Nat} (h : value ≠ 0) (hscale : 52 ≤ value.log2) :
    2 ^ 52 ≤ roundHalfEven value (2 ^ (value.log2 - 52)) ∧
      roundHalfEven value (2 ^ (value.log2 - 52)) ≤ 2 ^ 53 := by
  have hpos : 0 < 2 ^ (value.log2 - 52) := Nat.two_pow_pos _
  have hlower : 2 ^ 52 ≤ value / 2 ^ (value.log2 - 52) := by
    rw [Nat.le_div_iff_mul_le hpos, ← Nat.pow_add, Nat.add_sub_cancel' hscale]
    exact Nat.log2_self_le h
  have hupper : value / 2 ^ (value.log2 - 52) < 2 ^ 53 := by
    rw [Nat.div_lt_iff_lt_mul hpos, ← Nat.pow_add]
    have hexponent : 53 + (value.log2 - 52) = value.log2 + 1 := by omega
    rw [hexponent]
    exact Nat.lt_log2_self
  have hround := roundHalfEven_le value (2 ^ (value.log2 - 52))
  exact ⟨hlower.trans (div_le_roundHalfEven _ _), by omega⟩

theorem rounded_of_dvd {value : Nat} (h : 2 ^ (value.log2 - 52) ∣ value) : rounded value = value := by
  rw [rounded, roundHalfEven_of_dvd (Nat.two_pow_pos _) h, Nat.div_mul_cancel h]

theorem rounded_zero : rounded 0 = 0 :=
  rounded_of_dvd (Nat.dvd_zero _)

/-- A number with 53 significant bits is not changed by rounding, and no other is. -/
theorem rounded_eq_self_iff {value : Nat} :
    rounded value = value ↔
      ∃ significand exponent, significand < 2 ^ 53 ∧ value = significand * 2 ^ exponent := by
  constructor
  · intro h
    by_cases hscale : value.log2 < 52
    · refine ⟨value, 0, ?_, (Nat.mul_one _).symm⟩
      exact Nat.lt_log2_self.trans_le (Nat.pow_le_pow_right Nat.two_pos (by omega))
    · have hne : value ≠ 0 := by
        rintro rfl
        exact hscale (by decide)
      obtain ⟨-, hupper⟩ := significand_bounds hne (Nat.not_lt.mp hscale)
      rw [rounded] at h
      obtain hless | heq := Nat.lt_or_eq_of_le hupper
      · exact ⟨_, _, hless, h.symm⟩
      · -- Rounding up to a power of two leaves one bit.
        rw [heq, ← Nat.pow_add] at h
        exact ⟨1, _, by decide, by rw [Nat.one_mul, h]⟩
  · rintro ⟨significand, exponent, hless, heq⟩
    by_cases hne : value = 0
    · rw [hne, rounded_zero]
    · have hlog : value.log2 < 53 + exponent := by
        rw [Nat.log2_lt hne, Nat.pow_add, heq]
        exact Nat.mul_lt_mul_of_pos_right hless (Nat.two_pow_pos _)
      have hpow : 2 ^ (value.log2 - 52) ∣ 2 ^ exponent := Nat.pow_dvd_pow 2 (by omega)
      exact rounded_of_dvd (Nat.dvd_trans hpow ⟨significand, heq.trans (Nat.mul_comm _ _)⟩)

theorem log2_mul_two_pow {value : Nat} (h : value ≠ 0) (shift : Nat) :
    (value * 2 ^ shift).log2 = value.log2 + shift := by
  have hpos : 0 < 2 ^ shift := Nat.two_pow_pos _
  rw [Nat.log2_eq_iff (Nat.mul_ne_zero h hpos.ne')]
  constructor
  · rw [Nat.pow_add]
    exact Nat.mul_le_mul_right _ (Nat.log2_self_le h)
  · rw [Nat.add_right_comm, Nat.pow_add]
    exact Nat.mul_lt_mul_of_pos_right Nat.lt_log2_self hpos

/-- Rounding does not depend on the unit. -/
theorem rounded_mul_two_pow (value shift : Nat) :
    rounded (value * 2 ^ shift) = rounded value * 2 ^ shift := by
  by_cases hne : value = 0
  · rw [hne, Nat.zero_mul, rounded_zero, Nat.zero_mul]
  by_cases hscale : value.log2 < 52
  · have hless : value < 2 ^ 53 :=
      Nat.lt_log2_self.trans_le (Nat.pow_le_pow_right Nat.two_pos (by omega))
    rw [rounded_eq_self_iff.mpr ⟨value, shift, hless, rfl⟩,
      rounded_eq_self_iff.mpr ⟨value, 0, hless, (Nat.mul_one _).symm⟩]
  · have hexponent : value.log2 + shift - 52 = value.log2 - 52 + shift := by omega
    rw [rounded, log2_mul_two_pow hne, hexponent, Nat.pow_add,
      roundHalfEven_mul_right _ _ (Nat.two_pow_pos shift), ← Nat.mul_assoc, rounded]

/-! ## Bits -/

theorem magnitude_ofNat {bits : Nat} (h : bits < infinity) :
    magnitude ⟨BitVec.ofNat 64 bits⟩ = bits := by
  rw [infinity] at h
  rw [magnitude, BitVec.toNat_ofNat, Nat.mod_eq_of_lt (by omega), Nat.mod_eq_of_lt (by omega)]

theorem isNegative_ofNat {bits : Nat} (h : bits < infinity) :
    isNegative ⟨BitVec.ofNat 64 bits⟩ = false := by
  rw [infinity] at h
  rw [isNegative, BitVec.msb_eq_decide, BitVec.toNat_ofNat, decide_eq_false_iff_not]
  omega

/-- A scale and a significand are read back from the bits they make up, also when the significand
carries into the scale. -/
theorem units_ofNat {scale significand : Nat} (hupper : significand ≤ 2 ^ 53)
    (hlower : scale = 0 ∨ 2 ^ 52 ≤ significand)
    (hfinite : scale * hiddenBit + significand < infinity) :
    units ⟨BitVec.ofNat 64 (scale * hiddenBit + significand)⟩ = significand * 2 ^ scale := by
  have hmagnitude := magnitude_ofNat hfinite
  by_cases hcarry : significand = 2 ^ 53
  · have hscale : Binary64.scale ⟨BitVec.ofNat 64 (scale * hiddenBit + significand)⟩ =
        scale + 1 := by
      rw [Binary64.scale, hmagnitude, hiddenBit]
      omega
    have hsignificand : Binary64.significand
        ⟨BitVec.ofNat 64 (scale * hiddenBit + significand)⟩ = 2 ^ 52 := by
      rw [Binary64.significand, hmagnitude, hscale, hiddenBit]
      omega
    rw [units, hsignificand, hscale, hcarry, Nat.pow_eq, Nat.pow_succ]
    omega
  · have hscale : Binary64.scale ⟨BitVec.ofNat 64 (scale * hiddenBit + significand)⟩ =
        scale := by
      rw [Binary64.scale, hmagnitude, hiddenBit]
      omega
    have hsignificand : Binary64.significand
        ⟨BitVec.ofNat 64 (scale * hiddenBit + significand)⟩ = significand := by
      rw [Binary64.significand, hmagnitude, hscale, Nat.add_sub_cancel_left]
    rw [units, hsignificand, hscale, Nat.pow_eq]

theorem unitsPerOne_pos : 0 < unitsPerOne := by
  unfold unitsPerOne
  generalize 1074 = exponent
  exact Nat.two_pow_pos exponent

theorem rounded_mul_unitsPerOne (value : Nat) :
    rounded (value * unitsPerOne) = rounded value * unitsPerOne := by
  unfold unitsPerOne
  generalize 1074 = shift
  exact rounded_mul_two_pow value shift

theorem log2_mul_unitsPerOne {value : Nat} (h : value ≠ 0) :
    (value * unitsPerOne).log2 = value.log2 + 1074 := by
  unfold unitsPerOne
  generalize 1074 = shift
  exact log2_mul_two_pow h shift

/-- A natural number that fits into 63 bits has a nearest number, which is the rounded one. -/
theorem exists_nearest? {value : Nat} (h : value < 2 ^ 63) :
    ∃ number, nearest? value 1 = some number ∧ number.toInt? = some (rounded value : Int) := by
  have hunits := rounded_mul_unitsPerOne value
  rw [rounded] at hunits
  have hbounds : (value * unitsPerOne).log2 - 52 ≤ 1084 ∧
      ((value * unitsPerOne).log2 - 52 = 0 ∨
        2 ^ 52 ≤ roundHalfEven (value * unitsPerOne) (2 ^ ((value * unitsPerOne).log2 - 52))) ∧
      roundHalfEven (value * unitsPerOne) (2 ^ ((value * unitsPerOne).log2 - 52)) ≤ 2 ^ 53 := by
    by_cases hne : value = 0
    · subst hne
      rw [Nat.zero_mul]
      decide
    · have hlog : value.log2 < 63 := (Nat.log2_lt hne).mpr h
      have hfine := log2_mul_unitsPerOne hne
      have hfineNe : value * unitsPerOne ≠ 0 := by
        intro hzero
        rw [hzero, Nat.log2_zero] at hfine
        omega
      obtain ⟨hlower, hupper⟩ := significand_bounds hfineNe (by omega)
      exact ⟨by omega, .inr hlower, hupper⟩
  simp only [nearest?, Nat.div_one, Nat.one_mul, Nat.pow_eq]
  generalize (value * unitsPerOne).log2 - 52 = scale at hunits hbounds ⊢
  generalize roundHalfEven (value * unitsPerOne) (2 ^ scale) = significand at hunits hbounds ⊢
  obtain ⟨hscale, hlower, hupper⟩ := hbounds
  have hfinite : scale * hiddenBit + significand < infinity := by
    rw [hiddenBit, infinity]
    omega
  refine ⟨_, if_pos hfinite, ?_⟩
  have hisFinite : isFinite ⟨BitVec.ofNat 64 (scale * hiddenBit + significand)⟩ = true := by
    rw [isFinite, magnitude_ofNat hfinite]
    exact decide_eq_true hfinite
  rw [toInt?, units_ofNat hupper hlower hfinite, hunits, isNegative_ofNat hfinite,
    if_pos ⟨hisFinite, Nat.mul_mod_left _ _⟩, Nat.mul_div_cancel _ unitsPerOne_pos]
  rfl

end Binary64

end Stacklet
