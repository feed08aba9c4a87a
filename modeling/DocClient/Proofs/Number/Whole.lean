import DocClient.Number.Double
import Mathlib.Algebra.Order.Field.Rat
import Mathlib.Tactic.FieldSimp
import Mathlib.Tactic.Positivity
import Mathlib.Tactic.Ring

/-! Doubles that stand for whole numbers. Main statements: `isIntegral_and_truncate_iff`, by which these are the
doubles without a fraction, and cutting them loses nothing; `finite_and_value_ofInt`, by which all integers of up to
fifty-three bits are among them. -/
namespace DocClient.Double

variable {d : Double} {n : ℤ}

/-- The number that a finite double stands for. -/
def value (d : Double) : ℚ := (if d.negative then -1 else 1) * (d.significand * 2 ^ d.exponent)

/-- No digit of the number stands behind the point. -/
def isExact (d : Double) : Prop := 0 ≤ d.exponent ∨ d.significand % (1 <<< (-d.exponent).toNat) = 0

theorem isIntegral_iff : d.isIntegral = true ↔ d.isFinite = true ∧ d.isExact := by
  simp [isIntegral, isExact]

private theorem magnitude_of_nonneg (h : 0 ≤ d.exponent) :
    (d.significand * 2 ^ d.exponent : ℚ) = (d.magnitudeFloor : ℤ) := by
  rw [magnitudeFloor, if_pos h, Nat.shiftLeft_eq]
  obtain ⟨k, hk⟩ := Int.eq_ofNat_of_zero_le h
  simp [hk]

private theorem magnitude_of_neg (h : d.exponent < 0) :
    (d.significand * 2 ^ d.exponent : ℚ) = d.significand / (2 ^ (-d.exponent).toNat : ℕ) := by
  obtain ⟨k, hk⟩ := Int.eq_ofNat_of_zero_le (show 0 ≤ -d.exponent by omega)
  have hexponent : d.exponent = -(k : ℤ) := by omega
  simp [hexponent, div_eq_mul_inv]

/-- The magnitude is a whole number exactly if it has no fraction and is that number when it is cut. -/
theorem magnitude_eq_intCast_iff :
    (d.significand * 2 ^ d.exponent : ℚ) = n ↔ d.isExact ∧ (d.magnitudeFloor : ℤ) = n := by
  by_cases hexponent : 0 ≤ d.exponent
  · rw [magnitude_of_nonneg hexponent, Int.cast_inj]
    exact (and_iff_right (.inl hexponent)).symm
  have hunit : 0 < 2 ^ (-d.exponent).toNat := by positivity
  rw [magnitude_of_neg (lt_of_not_ge hexponent), isExact, or_iff_right hexponent, magnitudeFloor, if_neg hexponent,
    Nat.shiftRight_eq_div_pow, Nat.shiftLeft_eq, Nat.one_mul, div_eq_iff (by positivity)]
  generalize 2 ^ (-d.exponent).toNat = unit at hunit
  constructor
  · intro h
    have hproduct : (d.significand : ℤ) = n * unit := by exact_mod_cast h
    constructor
    · have hrest : ((d.significand % unit : ℕ) : ℤ) = 0 := by rw [Int.natCast_emod, hproduct, Int.mul_emod_left]
      exact_mod_cast hrest
    · rw [Int.natCast_ediv, hproduct, Int.mul_ediv_cancel _ (by omega)]
  · rintro ⟨hrest, rfl⟩
    exact_mod_cast (Nat.div_mul_cancel (Nat.dvd_of_mod_eq_zero hrest)).symm

/-- A double stands for a whole number exactly if it has no fraction and is that number when it is cut. -/
theorem isIntegral_and_truncate_iff :
    d.isIntegral = true ∧ d.truncate = n ↔ d.isFinite = true ∧ d.value = n := by
  rw [isIntegral_iff, and_assoc, truncate, value]
  refine and_congr_right fun _ => ?_
  cases d.negative with
  | false => simpa using magnitude_eq_intCast_iff.symm
  | true =>
    have hmagnitude := (magnitude_eq_intCast_iff (d := d) (n := -n)).symm
    rw [Int.cast_neg] at hmagnitude
    simpa [neg_eq_iff_eq_neg] using hmagnitude

/-! ### Integers as doubles -/

/-- The parts that a double is packed of are the parts that it has. -/
private theorem parts_of_packed (sign : Bool) {field fraction : ℕ} (hfield : field < 2048)
    (hfraction : fraction < hiddenBit)
    (hd : d = ⟨UInt64.ofNat (signBits sign + field * hiddenBit + fraction)⟩) :
    d.negative = sign ∧ d.exponentField = field ∧ d.fraction = fraction := by
  have hsign : signBits sign = 2 ^ 63 * sign.toNat := by cases sign <;> rfl
  have hsign' : sign.toNat ≤ 1 := Bool.toNat_le sign
  unfold hiddenBit at hd hfraction
  have hbits : d.bits.toNat = 2 ^ 63 * sign.toNat + field * 0x10000000000000 + fraction := by
    rw [hd, ← hsign]
    exact UInt64.toNat_ofNat_of_lt' (show _ < 2 ^ 64 by omega)
  refine ⟨?negative, ?exponentField, ?fraction⟩
  case negative =>
    rw [negative, hbits, Nat.shiftRight_eq_div_pow]
    have hquotient : (2 ^ 63 * sign.toNat + field * 0x10000000000000 + fraction) / 2 ^ 63 = sign.toNat := by omega
    rw [hquotient]
    cases sign <;> rfl
  case exponentField =>
    rw [exponentField, hbits, Nat.shiftRight_eq_div_pow]
    omega
  case fraction =>
    rw [Double.fraction, hbits, hiddenBit]
    omega

/-- Shifted up to the place of the hidden bit, a number is a significand. -/
private theorem shifted_bounds {m k : ℕ} (hm : m ≠ 0) (hk : m.log2 + k = 52) :
    hiddenBit ≤ m * 2 ^ k ∧ m * 2 ^ k < 2 * hiddenBit := by
  constructor
  · calc hiddenBit = 2 ^ m.log2 * 2 ^ k := by rw [← Nat.pow_add, hk]; rfl
      _ ≤ m * 2 ^ k := Nat.mul_le_mul_right _ (Nat.log2_self_le hm)
  · calc m * 2 ^ k < 2 ^ (m.log2 + 1) * 2 ^ k := Nat.mul_lt_mul_of_pos_right Nat.lt_log2_self (by positivity)
      _ = 2 * hiddenBit := by rw [← Nat.pow_add, Nat.add_right_comm, hk]; rfl

private theorem ofInt_eq_packed {k : ℕ} (hn : n.natAbs ≠ 0) (hk : n.natAbs.log2 + k = 52) :
    ofInt n = ⟨UInt64.ofNat (signBits (n < 0) + (n.natAbs.log2 + 1023) * hiddenBit +
      (n.natAbs * 2 ^ k - hiddenBit))⟩ := by
  have hlow := (shifted_bounds hn hk).1
  have hfield : ((n.natAbs.log2 : ℤ) + 0 + 1022).toNat = n.natAbs.log2 + 1022 := by omega
  -- The hidden bit of the significand carries into the exponent.
  have hcarry : (n.natAbs.log2 + 1023) * hiddenBit = (n.natAbs.log2 + 1022) * hiddenBit + hiddenBit :=
    Nat.succ_mul (n.natAbs.log2 + 1022) hiddenBit
  rw [ofInt, ofScaled, if_neg hn]
  dsimp only
  rw [if_pos (by omega), Nat.shiftLeft_eq, show 52 - n.natAbs.log2 = k by omega, hfield, hcarry]
  refine congrArg (fun bits => (⟨UInt64.ofNat bits⟩ : Double)) ?_
  omega

/-- Every integer of up to fifty-three bits is a double. -/
theorem finite_and_value_ofInt (h : n.natAbs < 2 ^ 53) : (ofInt n).isFinite = true ∧ (ofInt n).value = n := by
  by_cases hzero : n = 0
  · subst hzero
    decide +kernel
  have hn : n.natAbs ≠ 0 := Int.natAbs_ne_zero.mpr hzero
  have htop : n.natAbs.log2 < 53 := (Nat.log2_lt hn).mpr h
  obtain ⟨k, hk⟩ : ∃ k, n.natAbs.log2 + k = 52 := ⟨52 - n.natAbs.log2, by omega⟩
  obtain ⟨hlow, hhigh⟩ := shifted_bounds hn hk
  obtain ⟨hnegative, hfield, hfraction⟩ := parts_of_packed (n < 0) (by omega) (by omega) (ofInt_eq_packed hn hk)
  have hsignificand : (ofInt n).significand = n.natAbs * 2 ^ k := by
    rw [significand, hfield, if_neg (by omega), hfraction]
    omega
  have hexponent : (ofInt n).exponent = -k := by
    rw [exponent, hfield, if_neg (by omega)]
    omega
  constructor
  · rw [isFinite, hfield, decide_eq_true_eq]
    omega
  · have hmagnitude : ((ofInt n).significand * 2 ^ (ofInt n).exponent : ℚ) = n.natAbs := by
      rw [hsignificand, hexponent]
      push_cast
      rw [zpow_neg, zpow_natCast, mul_assoc, mul_inv_cancel₀ (by positivity), mul_one]
    have habs : (n.natAbs : ℚ) = (|n| : ℤ) := by rw [Int.abs_eq_natAbs, Int.cast_natCast]
    rw [value, hmagnitude, hnegative, habs]
    by_cases hsign : n < 0
    · simp [hsign, abs_of_neg hsign]
    · simp [hsign, abs_of_nonneg (Int.le_of_not_gt hsign)]

/-! ### Casts -/

theorem finite_of_isIntegral (h : d.isIntegral = true) : d.isNaN = false ∧ d.isInfinite = false := by
  unfold isIntegral isFinite at h
  rw [Bool.and_eq_true, decide_eq_true_eq] at h
  have hfield : ¬ d.exponentField = 2047 := by omega
  simp [isNaN, isInfinite, hfield]

theorem toIntWithin_of_isIntegral (h : d.isIntegral = true) (lo hi : ℤ) :
    d.toIntWithin lo hi = clamp lo hi d.truncate := by
  obtain ⟨hnan, hinf⟩ := finite_of_isIntegral h
  simp [toIntWithin, hnan, hinf]

theorem toUInt64_of_truncate (h : d.isIntegral = true) {m : ℕ} (hd : d.truncate = m) (hm : m < 2 ^ 64) :
    d.toUInt64.toNat = m := by
  have hclamp : clamp 0 0xffffffffffffffff m = m := by
    unfold clamp
    rw [if_neg (by omega), if_neg (by omega)]
  rw [toUInt64, toIntWithin_of_isIntegral h, hd, hclamp, Int.toNat_natCast]
  exact UInt64.toNat_ofNat_of_lt hm

theorem isAboveZero_of_truncate (h : d.isIntegral = true) {m : ℕ} (hd : d.truncate = m) (hm : 0 < m) :
    d.isAboveZero = true := by
  have hnan := (finite_of_isIntegral h).1
  have hsign : d.negative = false := by
    rw [Bool.eq_false_iff]
    intro hneg
    unfold truncate at hd
    rw [if_pos hneg] at hd
    omega
  have hzero : d.isZero = false := by
    rw [Bool.eq_false_iff]
    intro hzero
    unfold isZero at hzero
    rw [Bool.and_eq_true, decide_eq_true_eq, decide_eq_true_eq] at hzero
    have hfloor : d.magnitudeFloor = 0 := by
      simp [magnitudeFloor, significand, hzero]
    unfold truncate at hd
    rw [hsign, hfloor] at hd
    simp only [Bool.false_eq_true, if_false] at hd
    omega
  simp [isAboveZero, hnan, hsign, hzero]

/-- A number strictly inside a range comes from no other number. -/
theorem clamp_eq_iff {lo hi m : ℤ} (hlo : lo < m) (hhi : m < hi) : clamp lo hi n = m ↔ n = m := by
  constructor
  · intro h
    unfold clamp at h
    split_ifs at h <;> omega
  · rintro rfl
    rw [clamp, if_neg (by omega), if_neg (by omega)]

/-- Cast to an integer of 64 bits, a whole number out of range becomes the end of the range that it is nearer to. -/
theorem toInt_toInt64 (h : d.isIntegral = true) :
    d.toInt64.toInt = clamp (-0x8000000000000000) 0x7fffffffffffffff d.truncate := by
  rw [toInt64, toIntWithin_of_isIntegral h]
  generalize hn : clamp (-0x8000000000000000) 0x7fffffffffffffff d.truncate = n
  have hrange : -0x8000000000000000 ≤ n ∧ n ≤ 0x7fffffffffffffff := by
    rw [← hn, clamp]
    split_ifs <;> omega
  exact Int64.toInt_ofInt_of_le (by omega) (by omega)

end DocClient.Double
