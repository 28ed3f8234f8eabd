import Calculator.Proofs.Binary64.Representable

/-!
Cutting a number off to a 64-bit integer. Below 2 ^ 63 nothing but the fraction is lost, and what is
left has no more binary digits than the number had, so it is itself a number.
-/

namespace Calculator.Binary64

/-- The whole part of a number, kept within the range of 64-bit integers. What is not a number
counts as zero. -/
def truncation : Binary64 → Int
  | .nan _ => 0
  | .infinity negative => if negative then -0x8000000000000000 else 0x7FFFFFFFFFFFFFFF
  | .finite negative rank =>
      max (-0x8000000000000000) (min (wholePart negative rank) 0x7FFFFFFFFFFFFFFF)

def isBelow : Binary64 → Nat → Bool
  | .finite _ rank, n => units rank < n * unitsPerOne
  | _, _ => false

theorem toInt_ofIntClamp (i : Int) :
    (Int64.ofIntClamp i).toInt = max (-0x8000000000000000) (min i 0x7FFFFFFFFFFFFFFF) := by
  have hmin : Int64.minValue.toInt = -0x8000000000000000 := by decide
  have hmax : Int64.maxValue.toInt = 0x7FFFFFFFFFFFFFFF := by decide
  unfold Int64.ofIntClamp
  split
  · split
    · rw [Int64.toInt_ofIntLE]
      omega
    · omega
  · omega

/-- Cutting off gives the truncation. -/
theorem toInt_toInt64 (x : Binary64) : x.toInt64.toInt = x.truncation := by
  cases x with
  | nan => rfl
  | infinity negative => cases negative <;> decide
  | finite negative rank => exact toInt_ofIntClamp _

theorem truncation_bounds (x : Binary64) :
    -0x8000000000000000 ≤ x.truncation ∧ x.truncation < 0x8000000000000000 := by
  rw [← toInt_toInt64]
  exact ⟨x.toInt64.le_toInt, x.toInt64.toInt_lt⟩

theorem natAbs_wholePart (negative : Bool) (rank : Nat) :
    (wholePart negative rank).natAbs = units rank / unitsPerOne := by
  rw [wholePart, Int.natAbs_tdiv, natAbs_signedUnits, Int.natAbs_natCast]
  rfl

/-- The whole part of a magnitude is a number. -/
theorem representable_units_div {rank : Nat} (h : units rank / unitsPerOne < 0x10000000000000000) :
    Representable (units rank / unitsPerOne) := by
  obtain ⟨digits, zeros, hdigits, hunits⟩ := exists_units_eq rank
  rw [representable_iff h, hunits, unitsPerOne, Nat.one_shiftLeft, Nat.shiftLeft_eq]
  by_cases hzeros : unitPlaces ≤ zeros
  · have hwhole : digits * 2 ^ zeros / 2 ^ unitPlaces = digits * 2 ^ (zeros - unitPlaces) := by
      rw [Nat.mul_div_assoc _ (Nat.pow_dvd_pow 2 hzeros), Nat.pow_div hzeros Nat.two_pos]
    refine ⟨zeros - unitPlaces, ?_, ?_⟩
    · rw [hwhole, Nat.one_shiftLeft]
      exact Nat.dvd_mul_left _ _
    · rw [hwhole, Nat.shiftLeft_eq]
      exact Nat.mul_lt_mul_of_pos_right hdigits (Nat.two_pow_pos _)
  · refine ⟨0, Nat.one_dvd _, ?_⟩
    have hle : digits * 2 ^ zeros / 2 ^ unitPlaces ≤ digits := by
      apply Nat.div_le_of_le_mul
      rw [Nat.mul_comm]
      exact Nat.mul_le_mul_right digits (Nat.pow_le_pow_right Nat.two_pos (Nat.le_of_not_le hzeros))
    exact Nat.lt_of_le_of_lt hle hdigits

section Below

variable {x : Binary64} {n : Nat}

theorem isBelow_finite_iff {negative : Bool} {rank : Fin rankCount} :
    (finite negative rank).isBelow n ↔ units rank / unitsPerOne < n := by
  rw [isBelow, decide_eq_true_eq, Nat.div_lt_iff_lt_mul unitsPerOne_pos]

/-- Below 2 ^ 63 a number is cut off to its whole part. -/
theorem truncation_of_isBelow {negative : Bool} {rank : Fin rankCount}
    (h : (finite negative rank).isBelow 0x8000000000000000) :
    (finite negative rank).truncation = wholePart negative rank := by
  have hwhole := natAbs_wholePart negative rank
  rw [isBelow_finite_iff] at h
  rw [truncation]
  omega

/-- What a number below 2 ^ 63 is cut off to is a number, and below 2 ^ 63. -/
theorem representable_truncation (h : x.isBelow 0x8000000000000000) :
    Representable x.truncation.natAbs ∧ x.truncation.natAbs < 0x8000000000000000 := by
  cases x with
  | nan | infinity => cases h
  | finite negative rank =>
      rw [truncation_of_isBelow h, natAbs_wholePart]
      rw [isBelow_finite_iff] at h
      exact ⟨representable_units_div (Nat.lt_trans h (by decide)), h⟩

end Below

/-- An integer whose magnitude is representable is its own nearest number. -/
theorem Representable.isInteger_ofInt {i : Int} (h : Representable i.natAbs) :
    (ofInt i).IsInteger i := by
  obtain ⟨rank, hrank⟩ := representable_iff_units.mp h
  have hself := nearest_units (decide (i < 0)) rank Nat.one_pos
  rw [Nat.mul_one, hrank] at hself
  refine ⟨_, rank, hself, ?_⟩
  unfold signedUnits
  rw [hrank]
  split <;> push_cast <;> grind

end Calculator.Binary64
