import Calculator.Binary64.Basic

/-!
Rounding an exact quotient to the nearest magnitude. Two magnitudes equally near leave the choice
to the one of even rank. The same function serves arithmetic, conversion from whole numbers and
the reading of decimal digits, so each of them is rounded once from its exact value.
-/

namespace Calculator.Binary64

/-- The whole number nearest to `num / den`; of two equally near ones the even one. -/
def roundDiv (num den : Nat) : Nat :=
  let quotient := num / den
  let twice := 2 * (num % den)
  if twice < den ∨ (twice = den ∧ quotient % 2 = 0) then quotient else quotient + 1

/-- The rank of the magnitude nearest to `num / den` units; of two equally near ones the even one.
A result not below `rankCount` says that the nearest one lies beyond the last finite magnitude. -/
def nearestRank (num den : Nat) : Nat :=
  let dropped := (num / den).log2 - 52
  dropped * 0x10000000000000 + roundDiv num (den <<< dropped)

def nearest (negative : Bool) (num den : Nat) : Binary64 :=
  if h : nearestRank num den < rankCount then .finite negative ⟨nearestRank num den, h⟩
  else .infinity negative

/-- A quotient without remainder is not changed. -/
theorem roundDiv_mul_left {den : Nat} (hden : 0 < den) (n : Nat) : roundDiv (n * den) den = n := by
  simp [roundDiv, Nat.mul_div_cancel n hden, hden]

/-- A magnitude is its own nearest magnitude. -/
theorem nearestRank_units (rank : Nat) {den : Nat} (hden : 0 < den) :
    nearestRank (units rank * den) den = rank := by
  have hquotient : units rank * den / den = units rank := Nat.mul_div_cancel _ hden
  unfold nearestRank
  dsimp only
  rw [hquotient]
  by_cases hsmall : rank < 0x20000000000000
  · have hdropped : (units rank).log2 - 52 = 0 := by
      rw [units_of_lt hsmall]
      by_cases hzero : rank = 0
      · subst hzero
        rfl
      · have hlog : rank.log2 < 53 := (Nat.log2_lt hzero).mpr hsmall
        omega
    rw [hdropped, Nat.shiftLeft_zero, roundDiv_mul_left hden, units_of_lt hsmall]
    omega
  · have hunits : units rank =
        (0x10000000000000 + rank % 0x10000000000000) <<< (rank / 0x10000000000000 - 1) := by
      unfold units
      exact if_neg hsmall
    generalize hscale : rank / 0x10000000000000 - 1 = scale at hunits
    have hdropped : (units rank).log2 - 52 = scale := by
      have hne : units rank ≠ 0 := by
        rw [Ne, units_eq_zero_iff]
        omega
      have hlog : (units rank).log2 = 52 + scale := by
        rw [Nat.log2_eq_iff hne, hunits, Nat.shiftLeft_eq, Nat.pow_succ, Nat.pow_add]
        have hpos : 0 < 2 ^ scale := Nat.two_pow_pos scale
        constructor
        · exact Nat.mul_le_mul_right _ (by omega)
        · rw [Nat.mul_right_comm]
          exact Nat.mul_lt_mul_of_pos_right (by omega) hpos
      omega
    have hnum : units rank * den =
        (0x10000000000000 + rank % 0x10000000000000) * (den <<< scale) := by
      rw [hunits, Nat.shiftLeft_eq, Nat.shiftLeft_eq, Nat.mul_assoc, Nat.mul_comm den]
    have hpos : 0 < den <<< scale := by
      rw [Nat.shiftLeft_eq]
      exact Nat.mul_pos hden (Nat.two_pow_pos scale)
    rw [hdropped, hnum, roundDiv_mul_left hpos]
    omega

/-- A finite number is the nearest one to its own magnitude. -/
theorem nearest_units (negative : Bool) (rank : Fin rankCount) {den : Nat} (hden : 0 < den) :
    nearest negative (units rank * den) den = .finite negative rank := by
  have hrank : nearestRank (units rank * den) den < rankCount := by
    rw [nearestRank_units rank.val hden]
    exact rank.isLt
  rw [nearest, dif_pos hrank]
  congr 1
  exact Fin.ext (nearestRank_units rank.val hden)

end Calculator.Binary64
