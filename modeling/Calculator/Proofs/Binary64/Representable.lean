import Calculator.Proofs.Binary64.Whole

/-!
The natural numbers that are numbers of 64 bits: those that have no more than 53 binary digits in
front of the zeros they end in. Remainders and bitwise conjunctions of such numbers have no more.
-/

namespace Calculator.Binary64

/-- The number is not negative, and none is nearer to the natural number; of two equally near ones
it is the even one. -/
def IsNearest (x : Binary64) (n : Nat) : Prop :=
  ∃ rank, x = .finite false rank ∧ IsNearestRank (n * unitsPerOne) 1 rank

theorem isNearest_ofNat {n : Nat} (h : n < 0x10000000000000000) : (ofNat n).IsNearest n := by
  refine ⟨⟨_, nearestRank_lt_rankCount h⟩, ?_, nearestRank_isNearestRank _ Nat.one_pos⟩
  exact dif_pos (nearestRank_lt_rankCount h)

/-- The natural number is the exact value of some number. -/
def Representable (n : Nat) : Prop :=
  ∃ x : Binary64, x.IsInteger n

theorem representable_iff_units {n : Nat} :
    Representable n ↔ ∃ rank : Fin rankCount, units rank = n * unitsPerOne := by
  constructor
  · rintro ⟨_, negative, rank, rfl, hn⟩
    refine ⟨rank, ?_⟩
    rw [← natAbs_signedUnits negative, hn, Int.natAbs_mul, Int.natAbs_natCast, Int.natAbs_natCast]
  · rintro ⟨rank, hrank⟩
    exact ⟨_, false, rank, rfl, (congrArg Nat.cast hrank).trans (Int.natCast_mul _ _)⟩

/-- A natural number that is representable is its own nearest number. -/
theorem Representable.isInteger_ofNat {n : Nat} (h : Representable n) : (ofNat n).IsInteger n := by
  obtain ⟨rank, hrank⟩ := representable_iff_units.mp h
  have hself := nearest_units false rank Nat.one_pos
  rw [Nat.mul_one, hrank] at hself
  exact ⟨false, rank, hself, (congrArg Nat.cast hrank).trans (Int.natCast_mul _ _)⟩

/-- The value of a number is no other integer. -/
theorem IsInteger.unique {x : Binary64} {m n : Int} (hm : x.IsInteger m) (hn : x.IsInteger n) :
    m = n := by
  obtain ⟨negative, rank, rfl, hm⟩ := hm
  obtain ⟨_, _, hx, hn⟩ := hn
  cases hx
  have hone : (unitsPerOne : Int) ≠ 0 := Int.natCast_ne_zero.mpr (Nat.ne_of_gt unitsPerOne_pos)
  exact Int.eq_of_mul_eq_mul_right hone (hm.symm.trans hn)

/-- The nearest number to one that is representable is that one. -/
theorem IsNearest.isInteger {x : Binary64} {n : Nat} (h : x.IsNearest n) (hn : Representable n) :
    x.IsInteger n := by
  obtain ⟨rank, rfl, hnearest, _⟩ := h
  obtain ⟨other, hexact⟩ := representable_iff_units.mp hn
  have hle := hnearest other
  have hrank : units rank = n * unitsPerOne := by
    unfold distance at hle
    omega
  exact ⟨false, rank, rfl, (congrArg Nat.cast hrank).trans (Int.natCast_mul _ _)⟩

theorem representable_iff {n : Nat} (h : n < 0x10000000000000000) :
    Representable n ↔ ∃ zeros, 1 <<< zeros ∣ n ∧ n < 0x20000000000000 <<< zeros := by
  rw [representable_iff_units]
  constructor
  · rintro ⟨rank, hrank⟩
    obtain ⟨digits, zeros, hdigits, hunits⟩ := exists_units_eq rank
    rw [hrank, unitsPerOne, Nat.one_shiftLeft, Nat.shiftLeft_eq] at hunits
    by_cases hzeros : unitPlaces ≤ zeros
    · have hn : n = digits * 1 <<< (zeros - unitPlaces) := by
        refine Nat.eq_of_mul_eq_mul_right (Nat.two_pow_pos unitPlaces) ?_
        rw [hunits, Nat.one_shiftLeft, Nat.mul_assoc, ← Nat.pow_add, Nat.sub_add_cancel hzeros]
      refine ⟨zeros - unitPlaces, hn ▸ Nat.dvd_mul_left _ _, ?_⟩
      rw [hn, Nat.shiftLeft_eq 0x20000000000000, ← Nat.one_shiftLeft]
      exact Nat.mul_lt_mul_of_pos_right hdigits (one_shiftLeft_pos _)
    · have hle : n ≤ digits := by
        refine Nat.le_of_mul_le_mul_right ?_ (Nat.two_pow_pos unitPlaces)
        rw [hunits]
        exact Nat.mul_le_mul_left digits (Nat.pow_le_pow_right (by decide) (by omega))
      exact ⟨0, Nat.one_dvd n, Nat.lt_of_le_of_lt hle hdigits⟩
  · rintro ⟨zeros, hdvd, hlt⟩
    refine ⟨⟨_, nearestRank_lt_rankCount h⟩, units_nearestRank_of_dvd ?_⟩
    have hplaces : n * unitsPerOne < 0x20000000000000 <<< (zeros + unitPlaces) := by
      rw [unitsPerOne, Nat.one_shiftLeft, Nat.shiftLeft_add, Nat.shiftLeft_eq _ unitPlaces]
      exact Nat.mul_lt_mul_of_pos_right hlt (Nat.two_pow_pos unitPlaces)
    have hzeros : 1 <<< (zeros + unitPlaces) ∣ n * unitsPerOne := by
      rw [Nat.shiftLeft_add, Nat.shiftLeft_eq _ unitPlaces, ← Nat.one_shiftLeft]
      exact Nat.mul_dvd_mul_right hdvd _
    exact Nat.dvd_trans (one_shiftLeft_dvd (droppedDigits_le hplaces)) hzeros

theorem representable_zero : Representable 0 :=
  (representable_iff (by decide)).mpr ⟨0, Nat.one_dvd 0, by decide⟩

namespace Representable

variable {m n : Nat}

/-- A conjunction ends in all the zeros of each side. -/
theorem land (hm : Representable m) (hlt : m < 0x10000000000000000) (n : Nat) :
    Representable (m &&& n) := by
  obtain ⟨zeros, hdvd, hdigits⟩ := (representable_iff hlt).mp hm
  have hle : m &&& n ≤ m := Nat.and_le_left
  refine (representable_iff (Nat.lt_of_le_of_lt hle hlt)).mpr
    ⟨zeros, ?_, Nat.lt_of_le_of_lt hle hdigits⟩
  rw [Nat.one_shiftLeft] at hdvd ⊢
  apply Nat.dvd_of_mod_eq_zero
  rw [Nat.and_mod_two_pow, Nat.mod_eq_zero_of_dvd hdvd, Nat.zero_and]

/-- A remainder ends in the zeros of the side that ends in fewer of them. -/
theorem mod (hm : Representable m) (hn : Representable n) (hltm : m < 0x10000000000000000)
    (hltn : n < 0x10000000000000000) : Representable (m % n) := by
  obtain ⟨i, hdvdm, hdigitsm⟩ := (representable_iff hltm).mp hm
  obtain ⟨j, hdvdn, hdigitsn⟩ := (representable_iff hltn).mp hn
  rcases Nat.eq_zero_or_pos n with rfl | hpos
  · rwa [Nat.mod_zero]
  have hle : m % n ≤ m := Nat.mod_le m n
  have hlt : m % n < n := Nat.mod_lt m hpos
  rw [representable_iff (Nat.lt_of_le_of_lt hle hltm)]
  rcases Nat.le_total i j with h | h
  · have hdvd : 1 <<< i ∣ n := Nat.dvd_trans (one_shiftLeft_dvd h) hdvdn
    exact ⟨i, (Nat.dvd_mod_iff hdvd).mpr hdvdm, Nat.lt_of_le_of_lt hle hdigitsm⟩
  · have hdvd : 1 <<< j ∣ m := Nat.dvd_trans (one_shiftLeft_dvd h) hdvdm
    exact ⟨j, (Nat.dvd_mod_iff hdvdn).mpr hdvd, Nat.lt_trans hlt hdigitsn⟩

end Representable

end Calculator.Binary64
