import Calculator.Operator
import Calculator.Proofs.Operators.TwosComplement

/-!
What `%`, `&` and `|` compute, as operations on integers: both sides are truncated, and the result
is rounded to the nearest number.
-/

namespace Calculator

open Binary64

/-- There is no remainder of two 64-bit integers: the divisor is zero, or the quotient is 2 ^ 63. -/
def NoRemainder (m n : Int) : Prop :=
  n = 0 ∨ m = -0x8000000000000000 ∧ n = -1

instance (m n : Int) : Decidable (NoRemainder m n) :=
  inferInstanceAs (Decidable (_ ∨ _))

namespace Operator

theorem remainder_eq (a b : Int64) :
    remainder a b = if NoRemainder a.toInt b.toInt then none else some (a % b) := by
  have hzero : b = 0 ↔ b.toInt = 0 := Int64.toInt_inj.symm
  have hminus : b = -1 ↔ b.toInt = -1 := Int64.toInt_inj.symm
  have hleast : a = Int64.minValue ↔ a.toInt = -0x8000000000000000 := Int64.toInt_inj.symm
  apply if_congr _ rfl rfl
  simp only [NoRemainder, Bool.or_eq_true, Bool.and_eq_true, decide_eq_true_eq, hzero, hminus,
    hleast]

variable (x y : Binary64)

/-- The remainder is computed on the truncations. -/
theorem apply_mod_eq :
    mod.apply x y = if NoRemainder x.truncation y.truncation then quietNan
      else ofInt (x.truncation.tmod y.truncation) := by
  rw [apply, remainder_eq, toInt_toInt64, toInt_toInt64]
  split
  · rfl
  · rw [Option.map_some, Option.getD_some, ofInt64, Int64.toInt_mod, toInt_toInt64, toInt_toInt64]

theorem apply_bitAnd_eq : bitAnd.apply x y = ofInt (x.truncation.land y.truncation) := by
  rw [apply, ofInt64, TwosComplement.toInt_and, toInt_toInt64, toInt_toInt64]

theorem apply_bitOr_eq : bitOr.apply x y = ofInt (x.truncation.lor y.truncation) := by
  rw [apply, ofInt64, TwosComplement.toInt_or, toInt_toInt64, toInt_toInt64]

end Operator

end Calculator
