import Calculator.Proofs.Operators.Truncated

/-!
What `%`, `&` and `|` compute on whole numbers that are not negative. They work on 64-bit integers,
of which there is none above 2 ^ 63 - 1: a greater operand counts as that one. Up to it the
operators compute on the numbers themselves.
-/

namespace Calculator

def saturate (n : Nat) : Nat :=
  min n 0x7FFFFFFFFFFFFFFF

theorem saturate_of_lt {n : Nat} (h : n < 0x8000000000000000) : saturate n = n :=
  Nat.min_eq_left (Nat.le_of_lt_succ h)

theorem saturate_of_le {n : Nat} (h : 0x8000000000000000 ≤ n) : saturate n = 0x7FFFFFFFFFFFFFFF :=
  Nat.min_eq_right (by omega)

theorem saturate_pos {n : Nat} (h : 0 < n) : 0 < saturate n := by
  rw [saturate]
  omega

theorem saturate_lt (n : Nat) : saturate n < 0x8000000000000000 :=
  Nat.lt_succ_of_le (Nat.min_le_right _ _)

section Exact

variable {m n : Nat}

/-- If one of the sides is a 64-bit integer, their conjunction is a number. -/
theorem representable_land_saturate (hm : Binary64.Representable m)
    (hn : Binary64.Representable n) (h : m < 0x8000000000000000 ∨ n < 0x8000000000000000) :
    Binary64.Representable (saturate m &&& saturate n) := by
  rcases h with h | h
  · rw [saturate_of_lt h]
    exact hm.land (by omega) (saturate n)
  · rw [saturate_of_lt h, Nat.and_comm]
    exact hn.land (by omega) (saturate m)

/-- If the dividend is a 64-bit integer, the remainder is a number. -/
theorem representable_mod_saturate (hm : Binary64.Representable m)
    (hn : Binary64.Representable n) (h : m < 0x8000000000000000) :
    Binary64.Representable (saturate m % saturate n) := by
  rw [saturate_of_lt h]
  by_cases hlt : n < 0x8000000000000000
  · rw [saturate_of_lt hlt]
    exact hm.mod hn (by omega) (by omega)
  · rw [saturate_of_le (Nat.le_of_not_lt hlt)]
    have hcases : m < 0x7FFFFFFFFFFFFFFF ∨ m = 0x7FFFFFFFFFFFFFFF := by omega
    rcases hcases with hless | rfl
    · rwa [Nat.mod_eq_of_lt hless]
    · rw [Nat.mod_self]
      exact Binary64.representable_zero

end Exact

theorem or_lt_of_lt {m n : Nat} (hm : m < 0x8000000000000000) (hn : n < 0x8000000000000000) :
    m ||| n < 0x8000000000000000 := by
  have hlt : m ||| n < 2 ^ 63 := Nat.or_lt_two_pow hm hn
  exact hlt

namespace Binary64

theorem ofInt_natCast (n : Nat) : ofInt n = ofNat n := by
  rw [ofInt, ofNat, Int.natAbs_natCast, decide_eq_false (by omega)]

theorem IsInteger.truncation_eq {x : Binary64} {n : Nat} (h : x.IsInteger n) :
    x.truncation = saturate n := by
  rw [← toInt_toInt64, h.toInt64_eq, toInt_ofIntClamp, saturate]
  omega

end Binary64

namespace Operator

variable {x y : Binary64} {m n : Nat}

theorem apply_bitAnd (hx : x.IsInteger m) (hy : y.IsInteger n) :
    bitAnd.apply x y = .ofNat (saturate m &&& saturate n) := by
  rw [apply_bitAnd_eq, hx.truncation_eq, hy.truncation_eq]
  exact Binary64.ofInt_natCast _

theorem apply_bitOr (hx : x.IsInteger m) (hy : y.IsInteger n) :
    bitOr.apply x y = .ofNat (saturate m ||| saturate n) := by
  rw [apply_bitOr_eq, hx.truncation_eq, hy.truncation_eq]
  exact Binary64.ofInt_natCast _

theorem apply_mod (hx : x.IsInteger m) (hy : y.IsInteger n) (hn : 0 < n) :
    mod.apply x y = .ofNat (saturate m % saturate n) := by
  have hpos := saturate_pos hn
  have hdefined : ¬NoRemainder (saturate m) (saturate n) := by
    rintro (h | ⟨-, h⟩) <;> omega
  rw [apply_mod_eq, hx.truncation_eq, hy.truncation_eq, if_neg hdefined, ← Int.ofNat_tmod]
  exact Binary64.ofInt_natCast _

end Operator

end Calculator
