import Mathlib.Data.Int.Bitwise
import Calculator.Proofs.Binary64.Truncation

/-!
Conjunction and disjunction of integers in two's complement. A negative integer is the complement of
the natural number before its magnitude, so a conjunction of two of them is a disjunction of those
numbers: it reaches as far as the longer side, and ends in as many zeros as the side with more.
-/

namespace Calculator

/-- Integers with the same bits in two's complement are equal. -/
theorem eq_of_testBit_eq {m n : Int} (h : ∀ i, m.testBit i = n.testBit i) : m = n := by
  have hlast (k l : Nat) : k.testBit (k + l) = false :=
    Nat.testBit_lt_two_pow (Nat.lt_of_lt_of_le Nat.lt_two_pow_self
      (Nat.pow_le_pow_right Nat.two_pos (Nat.le_add_right k l)))
  cases m with
  | ofNat m =>
      cases n with
      | ofNat n => exact congrArg Int.ofNat (Nat.eq_of_testBit_eq h)
      | negSucc n =>
          -- far enough to the left the one has zeros only and the other ones only
          have hbit : m.testBit (m + n) = !n.testBit (m + n) := h (m + n)
          rw [hlast m n, Nat.add_comm, hlast n m] at hbit
          cases hbit
  | negSucc m =>
      cases n with
      | ofNat n =>
          have hbit : (!m.testBit (m + n)) = n.testBit (m + n) := h (m + n)
          rw [hlast m n, Nat.add_comm, hlast n m] at hbit
          cases hbit
      | negSucc n =>
          exact congrArg Int.negSucc (Nat.eq_of_testBit_eq fun i => Bool.not_inj (h i))

/-- The bits of a signed value are those of the word, continued by its sign. -/
theorem testBit_toInt {w : Nat} (x : BitVec w) (i : Nat) :
    x.toInt.testBit i = if i < w then x.getLsbD i else x.msb := by
  rw [BitVec.toInt_eq_msb_cond]
  split
  · rename_i hmsb
    have hneg : (x.toNat : Int) - (2 ^ w : Nat) = Int.negSucc (2 ^ w - (x.toNat + 1)) := by
      have hlt := x.isLt
      omega
    rw [hneg, Int.testBit, Nat.testBit_two_pow_sub_succ x.isLt, BitVec.testBit_toNat]
    split <;> simp_all
  · rename_i hmsb
    change x.toNat.testBit i = _
    rw [BitVec.testBit_toNat]
    split
    · rfl
    · rw [BitVec.getLsbD_of_ge x i (by omega)]
      simpa using hmsb

namespace TwosComplement

variable (a b : Int64)

theorem toInt_and : (a &&& b).toInt = a.toInt.land b.toInt := by
  apply eq_of_testBit_eq
  intro i
  change (a.toBitVec &&& b.toBitVec).toInt.testBit i = _
  rw [Int.testBit_land]
  change _ = (a.toBitVec.toInt.testBit i && b.toBitVec.toInt.testBit i)
  rw [testBit_toInt, testBit_toInt, testBit_toInt, BitVec.getLsbD_and, BitVec.msb_and]
  split <;> rfl

theorem toInt_or : (a ||| b).toInt = a.toInt.lor b.toInt := by
  apply eq_of_testBit_eq
  intro i
  change (a.toBitVec ||| b.toBitVec).toInt.testBit i = _
  rw [Int.testBit_lor]
  change _ = (a.toBitVec.toInt.testBit i || b.toBitVec.toInt.testBit i)
  rw [testBit_toInt, testBit_toInt, testBit_toInt, BitVec.getLsbD_or, BitVec.msb_or]
  split <;> rfl

end TwosComplement

namespace Binary64

variable {m n : Nat}

/-- What takes some of the bits of a representable number is representable. -/
theorem Representable.of_testBit (hm : Representable m) (hlt : m < 0x10000000000000000)
    (h : ∀ i, n.testBit i → m.testBit i) : Representable n := by
  have heq : m &&& n = n := by
    apply Nat.eq_of_testBit_eq
    intro i
    rw [Nat.testBit_and]
    by_cases hi : n.testBit i
    · rw [h i hi, hi]
      rfl
    · simp [hi]
  rw [← heq]
  exact hm.land hlt n

/-- What comes before a multiple of a power of two ends in ones. -/
theorem two_pow_dvd_add_one_iff {zeros : Nat} :
    2 ^ zeros ∣ m + 1 ↔ m % 2 ^ zeros + 1 = 2 ^ zeros := by
  have hpos := Nat.two_pow_pos zeros
  generalize 2 ^ zeros = power at *
  have hsplit := Nat.div_add_mod m power
  constructor
  · intro hdvd
    have hrest : power ∣ m % power + 1 := by
      rw [← hsplit, Nat.add_assoc] at hdvd
      exact (Nat.dvd_add_right (Nat.dvd_mul_right _ _)).mp hdvd
    exact Nat.le_antisymm (Nat.mod_lt m hpos) (Nat.le_of_dvd (Nat.succ_pos _) hrest)
  · intro hmod
    rw [← hsplit, Nat.add_assoc, hmod]
    exact Nat.dvd_add (Nat.dvd_mul_right _ _) (Nat.dvd_refl _)

/-- If `m + 1` ends in zeros then `m` ends in as many ones, which the disjunction keeps; and it is
no longer than the longer side. -/
theorem representable_or_add_one {zeros : Nat} (hdvd : 1 <<< zeros ∣ m + 1)
    (hm : m + 1 < 0x20000000000000 <<< zeros) (hn : n + 1 < 0x20000000000000 <<< zeros)
    (hltm : m < 0x8000000000000000) (hltn : n < 0x8000000000000000) :
    Representable ((m ||| n) + 1) := by
  have hpow : 0x20000000000000 <<< zeros = 2 ^ (53 + zeros) :=
    (Nat.shiftLeft_eq _ _).trans (Nat.pow_add 2 53 zeros).symm
  have hlt : m ||| n < 2 ^ (53 + zeros) := Nat.or_lt_two_pow (by omega) (by omega)
  have hsmall : m ||| n < 2 ^ 63 := Nat.or_lt_two_pow hltm hltn
  have hends : 2 ^ zeros ∣ (m ||| n) + 1 := by
    rw [Nat.one_shiftLeft, two_pow_dvd_add_one_iff] at hdvd
    have hle : m % 2 ^ zeros ≤ m % 2 ^ zeros ||| n % 2 ^ zeros := Nat.left_le_or
    have hlow : m % 2 ^ zeros ||| n % 2 ^ zeros < 2 ^ zeros :=
      Nat.or_lt_two_pow (by omega) (Nat.mod_lt n (Nat.two_pow_pos zeros))
    rw [two_pow_dvd_add_one_iff, Nat.or_mod_two_pow]
    omega
  rw [representable_iff (by omega)]
  by_cases hfull : (m ||| n) + 1 = 2 ^ (53 + zeros)
  · refine ⟨zeros + 1, ?_, ?_⟩
    · rw [hfull, Nat.one_shiftLeft]
      exact Nat.pow_dvd_pow 2 (by omega)
    · rw [hfull, Nat.shiftLeft_eq, Nat.add_comm 53, Nat.pow_add, Nat.pow_succ]
      have hpos := Nat.two_pow_pos zeros
      omega
  · exact ⟨zeros, Nat.one_shiftLeft zeros ▸ hends, by omega⟩

theorem testBit_ldiff_left {i : Nat} (h : (m.ldiff n).testBit i) : m.testBit i := by
  rw [Nat.testBit_ldiff, Bool.and_eq_true] at h
  exact h.1

/-- The conjunction of two representable integers is representable. -/
theorem representable_natAbs_land {m n : Int} (hm : Representable m.natAbs)
    (hn : Representable n.natAbs) (hltm : m.natAbs < 0x8000000000000000)
    (hltn : n.natAbs < 0x8000000000000000) : Representable (m.land n).natAbs := by
  cases m with
  | ofNat m =>
      have hlt : m < 0x10000000000000000 := Nat.lt_trans hltm (by decide)
      cases n with
      | ofNat n => exact hm.land hlt n
      | negSucc n => exact hm.of_testBit hlt fun i hi => testBit_ldiff_left hi
  | negSucc m =>
      cases n with
      | ofNat n =>
          have hlt : n < 0x10000000000000000 := Nat.lt_trans hltn (by decide)
          exact hn.of_testBit hlt fun i hi => testBit_ldiff_left hi
      | negSucc n =>
          change Representable (m + 1) at hm
          change Representable (n + 1) at hn
          change m + 1 < _ at hltm
          change n + 1 < _ at hltn
          obtain ⟨i, hdvdm, hdigitsm⟩ := (representable_iff (by omega)).mp hm
          obtain ⟨j, hdvdn, hdigitsn⟩ := (representable_iff (by omega)).mp hn
          have hlonger {k l : Nat} (h : k ≤ l) :
              0x20000000000000 <<< k ≤ 0x20000000000000 <<< l := by
            rw [Nat.shiftLeft_eq, Nat.shiftLeft_eq]
            exact Nat.mul_le_mul_left _ (Nat.pow_le_pow_right Nat.two_pos h)
          change Representable ((m ||| n) + 1)
          rcases Nat.le_total i j with h | h
          · rw [Nat.or_comm]
            exact representable_or_add_one hdvdn hdigitsn
              (Nat.lt_of_lt_of_le hdigitsm (hlonger h)) (by omega) (by omega)
          · exact representable_or_add_one hdvdm hdigitsm
              (Nat.lt_of_lt_of_le hdigitsn (hlonger h)) (by omega) (by omega)

/-- A disjunction is no longer than the longer side. -/
theorem natAbs_lor_lt {m n : Int} {places : Nat} (hm : m.natAbs < 2 ^ places)
    (hn : n.natAbs < 2 ^ places) : (m.lor n).natAbs < 2 ^ places := by
  cases m with
  | ofNat m =>
      cases n with
      | ofNat n => exact Nat.or_lt_two_pow hm hn
      | negSucc n =>
          have hle : n.ldiff m ≤ n := Nat.le_of_testBit fun i hi => testBit_ldiff_left hi
          exact Nat.lt_of_le_of_lt (Nat.succ_le_succ hle) hn
  | negSucc m =>
      cases n with
      | ofNat n =>
          have hle : m.ldiff n ≤ m := Nat.le_of_testBit fun i hi => testBit_ldiff_left hi
          exact Nat.lt_of_le_of_lt (Nat.succ_le_succ hle) hm
      | negSucc n => exact Nat.lt_of_le_of_lt (Nat.succ_le_succ Nat.and_le_left) hm

end Binary64

end Calculator
