import Calculator.Decimal.Basic
import Calculator.Proofs.Operators.Truncated

/-!
The operators that work on 64-bit integers lose nothing on the way back to floating-point numbers:
what a remainder or a conjunction of two numbers below 2 ^ 63 comes to is itself a number, and so is
a disjunction of integers below 2 ^ 53.
-/

namespace Calculator

open Binary64

theorem Binary64.not_isNan_of_isFinite {x : Binary64} (h : x.isFinite) : ¬x.isNan := by
  cases x with
  | nan => cases h
  | infinity => cases h
  | finite => exact Bool.false_ne_true

/-- A remainder is nearer to zero than the divisor, on the side of the dividend. -/
theorem tmod_sign_and_natAbs_lt (m : Int) {n : Int} (hn : n ≠ 0) :
    (m.tmod n = 0 ∨ (m.tmod n).sign = m.sign) ∧ (m.tmod n).natAbs < n.natAbs := by
  constructor
  · rw [Int.sign_tmod]
    split
    · exact .inl (Int.tmod_eq_zero_of_dvd ‹_›)
    · exact .inr rfl
  · rw [Int.natAbs_tmod]
    exact Nat.mod_lt _ (Int.natAbs_pos.mpr hn)

/-- Remainder, conjunction and disjunction of any two numbers. The remainder is `nan` exactly where
the truncations have none, and is a whole number everywhere else. For numbers below 2 ^ 63 the
remainder and the conjunction are exactly those of the truncations, and for truncations below 2 ^ 53
the disjunction is. -/
theorem apply_exact (x y : Binary64) :
    ((Operator.mod.apply x y).isNan ↔ NoRemainder x.truncation y.truncation) ∧
    (¬NoRemainder x.truncation y.truncation → (Operator.mod.apply x y).IsWhole) ∧
    (x.isBelow 0x8000000000000000 → y.isBelow 0x8000000000000000 → y.truncation ≠ 0 →
      ∃ r, r = x.truncation - y.truncation * x.truncation.tdiv y.truncation ∧
        (Operator.mod.apply x y).IsInteger r ∧
        (r = 0 ∨ r.sign = x.truncation.sign) ∧ r.natAbs < y.truncation.natAbs) ∧
    (x.isBelow 0x8000000000000000 → y.isBelow 0x8000000000000000 →
      (Operator.bitAnd.apply x y).IsInteger (x.truncation.land y.truncation)) ∧
    (x.truncation.natAbs < 0x20000000000000 → y.truncation.natAbs < 0x20000000000000 →
      (Operator.bitOr.apply x y).IsInteger (x.truncation.lor y.truncation)) := by
  have hwhole : ¬NoRemainder x.truncation y.truncation → (Operator.mod.apply x y).IsWhole := by
    intro h
    rw [Operator.apply_mod_eq, if_neg h]
    apply nearest_isWhole
    have hbounds := x.truncation_bounds
    have hle := Nat.mod_le x.truncation.natAbs y.truncation.natAbs
    rw [Int.natAbs_tmod]
    omega
  refine ⟨⟨fun hnan => ?_, fun h => ?_⟩, hwhole, fun hx hy hne => ?_, fun hx hy => ?_,
    fun hx hy => ?_⟩
  · by_contra h
    exact not_isNan_of_isFinite (hwhole h).isFinite hnan
  · rw [Operator.apply_mod_eq, if_pos h]
    rfl
  · obtain ⟨hxnumber, hxlt⟩ := representable_truncation hx
    obtain ⟨hynumber, hylt⟩ := representable_truncation hy
    have hdefined : ¬NoRemainder x.truncation y.truncation := by
      rintro (h | ⟨h, -⟩)
      · exact hne h
      · rw [h] at hxlt
        exact absurd hxlt (by decide)
    obtain ⟨hsign, hlt⟩ := tmod_sign_and_natAbs_lt x.truncation hne
    refine ⟨_, Int.tmod_def _ _, ?_, hsign, hlt⟩
    rw [Operator.apply_mod_eq, if_neg hdefined]
    apply Representable.isInteger_ofInt
    rw [Int.natAbs_tmod]
    exact hxnumber.mod hynumber (by omega) (by omega)
  · obtain ⟨hxnumber, hxlt⟩ := representable_truncation hx
    obtain ⟨hynumber, hylt⟩ := representable_truncation hy
    rw [Operator.apply_bitAnd_eq]
    exact (representable_natAbs_land hxnumber hynumber hxlt hylt).isInteger_ofInt
  · have hlt : (x.truncation.lor y.truncation).natAbs < 2 ^ 53 := natAbs_lor_lt hx hy
    rw [Operator.apply_bitOr_eq]
    apply Representable.isInteger_ofInt
    exact (representable_iff (by omega)).mpr ⟨0, Nat.one_dvd _, hlt⟩

/-- Remainder and conjunction of integers of 53 and 31 digits that end in zeros, and a disjunction
with a number that has a fraction. By one half there is no remainder. -/
theorem apply_exact_of_large_operands :
    (Operator.mod.apply (ofInt (-0x4000000000000400)) (ofInt (-0x2FFFFFFF000))).IsInteger
      (-0x10155555400) ∧
    (Operator.bitAnd.apply (ofInt (-0x4000000000000400)) (ofInt (-0x2FFFFFFF000))).IsInteger
      (-0x400002FFFFFFF000) ∧
    (Operator.bitOr.apply (Decimal.toBinary64 ⟨65, -1⟩ true) (ofInt 0x10000000000001)).IsInteger
      (-5) ∧
    (Operator.mod.apply (ofInt 7) (Decimal.toBinary64 ⟨5, -1⟩ false)).isNan := by
  have hdividend : (ofInt (-0x4000000000000400)).isBelow 0x8000000000000000 := by decide +kernel
  have hdivisor : (ofInt (-0x2FFFFFFF000)).isBelow 0x8000000000000000 := by decide +kernel
  obtain ⟨_, _, hmod, hand, _⟩ := apply_exact (ofInt (-0x4000000000000400)) (ofInt (-0x2FFFFFFF000))
  obtain ⟨r, hr, hinteger, _⟩ := hmod hdividend hdivisor (by decide +kernel)
  obtain ⟨_, _, _, _, hor⟩ :=
    apply_exact (Decimal.toBinary64 ⟨65, -1⟩ true) (ofInt 0x10000000000001)
  obtain ⟨hnan, _⟩ := apply_exact (ofInt 7) (Decimal.toBinary64 ⟨5, -1⟩ false)
  have hvalue : r = -0x10155555400 := by
    rw [hr]
    decide +kernel
  rw [hvalue] at hinteger
  refine ⟨hinteger, ?_, ?_, ?_⟩
  · have hbits : (ofInt (-0x4000000000000400)).truncation.land (ofInt (-0x2FFFFFFF000)).truncation =
        -0x400002FFFFFFF000 := by
      decide +kernel
    rw [← hbits]
    exact hand hdividend hdivisor
  · have hbits : (Decimal.toBinary64 ⟨65, -1⟩ true).truncation.lor
        (ofInt 0x10000000000001).truncation = -5 := by
      decide +kernel
    rw [← hbits]
    exact hor (by decide +kernel) (by decide +kernel)
  · rw [hnan]
    decide +kernel

end Calculator
