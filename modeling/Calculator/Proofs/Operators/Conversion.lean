import Calculator.Proofs.Binary64.Order
import Calculator.Proofs.Operators.Saturation

/-!
Integers of 64 bits as numbers, and numbers cut off to such integers. Both ways keep the order. An
integer becomes the nearest number, which is cut off to the integer again unless it has too many
digits, and then to one close by. To cut off a second time changes nothing.
-/

namespace Calculator.Binary64

/-- The number is finite, no other finite number is nearer to the integer, and of two equally near
ones it is the even one. -/
def IsNearestToInt (x : Binary64) (n : Int) : Prop :=
  ∃ negative rank, x = .finite negative rank ∧ ∀ negative' (rank' : Fin rankCount),
    (signedUnits negative rank - n * unitsPerOne).natAbs ≤
      (signedUnits negative' rank' - n * unitsPerOne).natAbs ∧
    (signedUnits negative' rank' ≠ signedUnits negative rank →
      (signedUnits negative' rank' - n * unitsPerOne).natAbs =
        (signedUnits negative rank - n * unitsPerOne).natAbs → rank.val % 2 = 0)

/-- How far a number is from an integer: as far as their magnitudes if the signs are the same, and
as far as both are from zero if they are not. -/
theorem natAbs_signedUnits_sub (n : Int) (negative : Bool) (rank : Nat) :
    (signedUnits negative rank - n * unitsPerOne).natAbs =
      if negative = decide (n < 0) then distance (n.natAbs * unitsPerOne) 1 (units rank)
      else units rank + n.natAbs * unitsPerOne := by
  have habs : n * unitsPerOne = if n < 0 then -((n.natAbs * unitsPerOne : Nat) : Int)
      else ((n.natAbs * unitsPerOne : Nat) : Int) := by
    split
    · rw [Int.natCast_mul, Int.ofNat_natAbs_of_nonpos (by omega), Int.neg_mul, Int.neg_neg]
    · rw [Int.natCast_mul, Int.natAbs_of_nonneg (by omega)]
  rw [habs]
  generalize n.natAbs * unitsPerOne = magnitude
  unfold signedUnits distance
  cases negative <;> by_cases hneg : n < 0 <;> simp [hneg] <;> omega

/-- An integer of less than 65 binary digits becomes a finite number of its sign. -/
theorem exists_ofInt_eq {n : Int} (h : n.natAbs < 0x10000000000000000) :
    ∃ rank : Fin rankCount, ofInt n = .finite (n < 0) rank ∧
      rank.val = nearestRank (n.natAbs * unitsPerOne) 1 :=
  ⟨⟨_, nearestRank_lt_rankCount h⟩, dif_pos (nearestRank_lt_rankCount h), rfl⟩

theorem signedUnits_of_units_eq_zero {rank : Nat} (h : units rank = 0) (negative : Bool) :
    signedUnits negative rank = 0 := by
  rw [← Int.natAbs_eq_zero, natAbs_signedUnits, h]

/-- An integer becomes the nearest number. -/
theorem isNearestToInt_ofInt {n : Int} (h : n.natAbs < 0x10000000000000000) :
    (ofInt n).IsNearestToInt n := by
  obtain ⟨rank, hx, hrank⟩ := exists_ofInt_eq h
  have hnearest := nearestRank_isNearestRank (n.natAbs * unitsPerOne) Nat.one_pos
  rw [← hrank] at hnearest
  have hzero : distance (n.natAbs * unitsPerOne) 1 (units 0) = n.natAbs * unitsPerOne := by
    unfold distance
    rw [(units_eq_zero_iff 0).mpr rfl]
    omega
  have hfromZero := hnearest.nearest 0
  rw [hzero] at hfromZero
  refine ⟨_, rank, hx, fun negative' rank' => ?_⟩
  rw [natAbs_signedUnits_sub, natAbs_signedUnits_sub, if_pos rfl]
  by_cases hsign : negative' = decide (n < 0)
  · rw [if_pos hsign]
    subst hsign
    refine ⟨hnearest.nearest rank', fun hne hsame => hnearest.even rank' ?_ hsame⟩
    intro heq
    exact hne (congrArg _ heq)
  · rw [if_neg hsign]
    refine ⟨by omega, fun hne hsame => ?_⟩
    -- on the other side of zero only zero itself can be as near
    have hother : units rank' = 0 := by omega
    refine hnearest.even 0 (fun heq => hne ?_) (by omega)
    rw [signedUnits_of_units_eq_zero hother, signedUnits_of_units_eq_zero]
    rw [← heq]
    exact (units_eq_zero_iff 0).mpr rfl

section Order

theorem nearestRank_mono {num num' den : Nat} (hden : 0 < den) (h : num ≤ num') :
    nearestRank num den ≤ nearestRank num' den := by
  apply Nat.le_of_not_lt
  intro hlt
  have hbelow := (nearestRank_isNearestRank num hden).nearest (nearestRank num' den)
  have habove := (nearestRank_isNearestRank num' hden).nearest (nearestRank num den)
  have hunits := units_mul_lt_units_mul hden hlt
  rcases Nat.lt_or_eq_of_le h with h | rfl
  · unfold distance at hbelow habove
    omega
  · exact absurd hlt (Nat.lt_irrefl _)

/-- A greater integer does not become a smaller number. -/
theorem ofInt_le_ofInt {m n : Int} (hm : m.natAbs < 0x10000000000000000)
    (hn : n.natAbs < 0x10000000000000000) (h : m ≤ n) : (ofInt m).le (ofInt n) := by
  obtain ⟨i, hi, hirank⟩ := exists_ofInt_eq hm
  obtain ⟨j, hj, hjrank⟩ := exists_ofInt_eq hn
  have hranks : ∀ {k l : Nat}, k ≤ l →
      units (nearestRank (k * unitsPerOne) 1) ≤ units (nearestRank (l * unitsPerOne) 1) :=
    fun hkl => units_le_units (nearestRank_mono Nat.one_pos (Nat.mul_le_mul_right _ hkl))
  rw [hi, hj, le, decide_eq_true_eq, hirank, hjrank]
  unfold signedUnits
  by_cases hmneg : m < 0
  · by_cases hnneg : n < 0
    · have hunits := hranks (show n.natAbs ≤ m.natAbs by omega)
      simp only [hmneg, hnneg, decide_true, if_true]
      omega
    · simp only [hmneg, hnneg, decide_true, decide_false, if_true, Bool.false_eq_true, if_false]
      omega
  · have hunits := hranks (show m.natAbs ≤ n.natAbs by omega)
    have hnneg : ¬n < 0 := by omega
    simp only [hmneg, hnneg, decide_false, Bool.false_eq_true, if_false]
    omega

theorem wholePart_le_wholePart {a b : Bool} {i j : Nat} (h : signedUnits a i ≤ signedUnits b j) :
    wholePart a i ≤ wholePart b j :=
  Int.tdiv_le_tdiv (Int.natCast_pos.mpr unitsPerOne_pos) h

/-- A greater number is not cut off to a smaller integer. -/
theorem truncation_le_truncation {x y : Binary64} (h : x.le y) : x.truncation ≤ y.truncation := by
  have hx := x.truncation_bounds
  have hy := y.truncation_bounds
  cases x with
  | nan => cases h
  | infinity a =>
      cases a with
      | true => exact hy.1
      | false =>
          cases y with
          | nan | finite => cases h
          | infinity b =>
              cases b with
              | true => cases h
              | false => exact Int.le_refl _
  | finite a i =>
      cases y with
      | nan => cases h
      | infinity b =>
          cases b with
          | true => cases h
          | false => exact Int.lt_add_one_iff.mp hx.2
      | finite b j =>
          have hwhole := wholePart_le_wholePart (of_decide_eq_true h)
          rw [truncation, truncation]
          omega

end Order

/-- 2 ^ 63 is a number, the first one beyond the 64-bit integers. -/
theorem representable_two_pow : Representable 0x8000000000000000 :=
  (representable_iff (by decide)).mpr ⟨63, by decide, by decide⟩

theorem representable_of_le {n : Nat} (h : n ≤ 0x20000000000000) : Representable n := by
  rw [representable_iff (Nat.lt_of_le_of_lt h (by decide))]
  rcases Nat.lt_or_eq_of_le h with h | rfl
  · exact ⟨0, Nat.one_dvd n, h⟩
  · exact ⟨53, by decide, by decide⟩

/-- The multiples of 1024 among the 64-bit integers are numbers. -/
theorem representable_of_dvd {n : Nat} (h : n ≤ 0x8000000000000000) (hdvd : 1024 ∣ n) :
    Representable n := by
  rcases Nat.lt_or_eq_of_le h with hlt | rfl
  · exact (representable_iff (Nat.lt_trans hlt (by decide))).mpr ⟨10, hdvd, hlt⟩
  · exact representable_two_pow

/-- A nearest number is as near as every integer that is a number. -/
theorem IsNearestToInt.natAbs_sub_le {x : Binary64} {n k m : Int} (h : x.IsNearestToInt n)
    (hx : x.IsInteger k) (hm : Representable m.natAbs) : (k - n).natAbs ≤ (m - n).natAbs := by
  obtain ⟨negative, rank, rfl, hnearest⟩ := h
  obtain ⟨_, _, heq, hk⟩ := hx
  cases heq
  obtain ⟨negative', rank', _, hm⟩ := hm.isInteger_ofInt
  have hle := (hnearest negative' rank').1
  rw [hk, hm, ← Int.sub_mul, ← Int.sub_mul, Int.natAbs_mul, Int.natAbs_mul,
    Int.natAbs_natCast] at hle
  exact Nat.le_of_mul_le_mul_right hle unitsPerOne_pos

theorem natAbs_toInt_lt (n : Int64) : n.toInt.natAbs < 0x10000000000000000 := by
  have hlower := n.le_toInt
  have hupper := n.toInt_lt
  omega

/-- Within 512 of every 64-bit integer there is a multiple of 1024. -/
theorem toInt64_ofInt64_near (n : Int64) :
    ((ofInt64 n).toInt64.toInt - n.toInt).natAbs ≤ 512 := by
  have hlower := n.le_toInt
  have hupper := n.toInt_lt
  obtain ⟨k, hk⟩ := isWhole_ofInt64 n
  have hnearest : (ofInt64 n).IsNearestToInt n.toInt := isNearestToInt_ofInt (natAbs_toInt_lt n)
  have hmultiple : Representable (1024 * ((n.toInt + 512) / 1024)).natAbs := by
    refine representable_of_dvd (by omega) ?_
    rw [Int.natAbs_mul]
    exact Nat.dvd_mul_right _ _
  have hle := hnearest.natAbs_sub_le hk hmultiple
  rw [hk.toInt64_eq, toInt_ofIntClamp]
  omega

theorem toInt64_ofInt64_of_le {n : Int64} (h : n.toInt.natAbs ≤ 0x20000000000000) :
    (ofInt64 n).toInt64 = n := by
  have hexact : (ofInt64 n).IsInteger n.toInt := (representable_of_le h).isInteger_ofInt
  rw [← Int64.toInt_inj, hexact.toInt64_eq, toInt_ofIntClamp]
  omega

section Whole

/-- The whole number that is left of a number where it is cut off to a 64-bit integer. -/
def cutOff (x : Binary64) : Binary64 :=
  ofInt64 x.toInt64

theorem cutOff_eq (x : Binary64) : x.cutOff = ofInt x.truncation := by
  rw [cutOff, ofInt64, toInt_toInt64]

/-- What a number is cut off to is a number, unless it is the last 64-bit integer. -/
theorem representable_truncation_or (x : Binary64) :
    Representable x.truncation.natAbs ∨ x.truncation = 0x7FFFFFFFFFFFFFFF := by
  cases x with
  | nan => exact .inl representable_zero
  | infinity negative =>
      cases negative with
      | true => exact .inl representable_two_pow
      | false => exact .inr rfl
  | finite negative rank =>
      by_cases hbelow : (finite negative rank).isBelow 0x8000000000000000
      · exact .inl (representable_truncation hbelow).1
      · rw [isBelow_finite_iff, ← natAbs_wholePart negative] at hbelow
        rw [truncation]
        rcases Int.lt_or_le (wholePart negative rank) 0 with hneg | hpos
        · left
          have hleast : max (-0x8000000000000000)
              (min (wholePart negative rank) 0x7FFFFFFFFFFFFFFF) = -0x8000000000000000 := by
            omega
          rw [hleast]
          exact representable_two_pow
        · right
          omega

/-- The last 64-bit integer becomes 2 ^ 63. -/
theorem isInteger_ofInt_last : (ofInt 0x7FFFFFFFFFFFFFFF).IsInteger 0x8000000000000000 :=
  ⟨false, ⟨0x43E0000000000000, by decide⟩, by decide +kernel, by decide +kernel⟩

theorem equals_finite_iff {a b : Bool} {i j : Fin rankCount} :
    (finite a i).equals (finite b j) ↔ signedUnits a i = signedUnits b j := by
  rw [equals, Bool.and_eq_true, Bool.or_eq_true, beq_iff_eq, beq_iff_eq, beq_iff_eq]
  constructor
  · rintro ⟨rfl, rfl | hzero⟩
    · rfl
    · have hunits : units i = 0 := (units_eq_zero_iff _).mpr hzero
      rw [signedUnits_of_units_eq_zero hunits, signedUnits_of_units_eq_zero hunits]
  · intro h
    have habs := congrArg Int.natAbs h
    rw [natAbs_signedUnits, natAbs_signedUnits] at habs
    obtain rfl : i = j := Fin.ext (units_injective habs)
    refine ⟨rfl, ?_⟩
    by_cases hsign : a = b
    · exact .inl hsign
    · right
      rw [← units_eq_zero_iff]
      unfold signedUnits at h
      cases a <;> cases b <;> simp at hsign h <;> omega

theorem IsInteger.equals {x y : Binary64} {n : Int} (hx : x.IsInteger n) (hy : y.IsInteger n) :
    x.equals y := by
  obtain ⟨a, i, rfl, hi⟩ := hx
  obtain ⟨b, j, rfl, hj⟩ := hy
  exact equals_finite_iff.mpr (hi.trans hj.symm)

theorem IsInteger.of_equals {x y : Binary64} {n : Int} (hx : x.IsInteger n) (h : x.equals y) :
    y.IsInteger n := by
  obtain ⟨a, i, rfl, hi⟩ := hx
  cases y with
  | nan | infinity => cases h
  | finite b j => exact ⟨b, j, rfl, (equals_finite_iff.mp h).symm.trans hi⟩

theorem IsInteger.representable {x : Binary64} {n : Int} (h : x.IsInteger n) :
    Representable n.natAbs := by
  obtain ⟨negative, rank, rfl, hn⟩ := h
  refine representable_iff_units.mpr ⟨rank, ?_⟩
  rw [← natAbs_signedUnits negative, hn, Int.natAbs_mul, Int.natAbs_natCast]

theorem IsInteger.truncation_eq_clamp {x : Binary64} {n : Int} (h : x.IsInteger n) :
    x.truncation = max (-0x8000000000000000) (min n 0x7FFFFFFFFFFFFFFF) := by
  rw [← toInt_toInt64, h.toInt64_eq, toInt_ofIntClamp]

/-- What is left of a number is a whole number from -2 ^ 63 to 2 ^ 63, and it is cut off to the same
integer. -/
theorem exists_cutOff_isInteger (x : Binary64) :
    ∃ n : Int, -0x8000000000000000 ≤ n ∧ n ≤ 0x8000000000000000 ∧ x.cutOff.IsInteger n ∧
      x.cutOff.truncation = x.truncation := by
  have hbounds := x.truncation_bounds
  rw [cutOff_eq]
  rcases representable_truncation_or x with hexact | hlast
  · have hinteger := hexact.isInteger_ofInt
    refine ⟨x.truncation, hbounds.1, Int.le_of_lt hbounds.2, hinteger, ?_⟩
    rw [hinteger.truncation_eq_clamp]
    omega
  · rw [hlast]
    refine ⟨0x8000000000000000, by decide, Int.le_refl _, isInteger_ofInt_last, ?_⟩
    exact isInteger_ofInt_last.truncation_eq_clamp

theorem cutOff_cutOff (x : Binary64) : x.cutOff.cutOff = x.cutOff := by
  obtain ⟨_, _, _, _, hsame⟩ := exists_cutOff_isInteger x
  rw [cutOff_eq x.cutOff, hsame, cutOff_eq]

/-- Whole numbers from -2 ^ 63 to 2 ^ 63 are left as they are, also the last one, which is no 64-bit
integer. -/
theorem IsInteger.cutOff {x : Binary64} {n : Int} (h : x.IsInteger n)
    (hlower : -0x8000000000000000 ≤ n) (hupper : n ≤ 0x8000000000000000) :
    x.cutOff.IsInteger n := by
  have htruncation := h.truncation_eq_clamp
  rw [cutOff_eq]
  rcases Int.lt_or_eq_of_le hupper with hlt | rfl
  · have hn : x.truncation = n := by omega
    rw [hn]
    exact h.representable.isInteger_ofInt
  · have hlast : x.truncation = 0x7FFFFFFFFFFFFFFF := htruncation
    rw [hlast]
    exact isInteger_ofInt_last

theorem cutOff_equals_iff (x : Binary64) :
    x.cutOff.equals x ↔
      ∃ n : Int, -0x8000000000000000 ≤ n ∧ n ≤ 0x8000000000000000 ∧ x.IsInteger n := by
  constructor
  · intro h
    obtain ⟨n, hlower, hupper, hinteger, _⟩ := exists_cutOff_isInteger x
    exact ⟨n, hlower, hupper, hinteger.of_equals h⟩
  · rintro ⟨n, hlower, hupper, hinteger⟩
    exact (hinteger.cutOff hlower hupper).equals hinteger

end Whole

/-- The conversions between 64-bit integers and numbers behave well over their whole range. Both
from signed and from unsigned integers they keep the order; a signed integer becomes the nearest
number, ties to even; it is cut off to itself again up to a magnitude of 2 ^ 53, and to an integer
within 512 beyond. Cutting off keeps the order, too. What is left of a number that is cut off to an
integer is left as it is from then on, and the numbers that are equal to what is left of them are
the whole numbers from -2 ^ 63 to 2 ^ 63. -/
theorem conversions_behave_well :
    (∀ m n : Int64, m ≤ n → (ofInt64 m).le (ofInt64 n)) ∧
    (∀ m n : UInt64, m ≤ n → (ofNat m.toNat).le (ofNat n.toNat)) ∧
    (∀ n : Int64, (ofInt64 n).IsNearestToInt n.toInt) ∧
    (∀ n : Int64, n.toInt.natAbs ≤ 0x20000000000000 → (ofInt64 n).toInt64 = n) ∧
    (∀ n : Int64, ((ofInt64 n).toInt64.toInt - n.toInt).natAbs ≤ 512) ∧
    (∀ x y : Binary64, x.le y → x.toInt64 ≤ y.toInt64) ∧
    (∀ x : Binary64, x.cutOff.cutOff = x.cutOff) ∧
    ∀ x : Binary64, x.cutOff.equals x ↔
      ∃ n : Int, -0x8000000000000000 ≤ n ∧ n ≤ 0x8000000000000000 ∧ x.IsInteger n := by
  refine ⟨fun m n h => ?_, fun m n h => ?_, fun n => ?_, fun n h => ?_, toInt64_ofInt64_near,
    fun x y h => ?_, cutOff_cutOff, cutOff_equals_iff⟩
  · rw [Int64.le_iff_toInt_le] at h
    exact ofInt_le_ofInt (natAbs_toInt_lt m) (natAbs_toInt_lt n) h
  · rw [UInt64.le_iff_toNat_le] at h
    rw [← ofInt_natCast, ← ofInt_natCast]
    exact ofInt_le_ofInt m.toNat_lt n.toNat_lt (Int.ofNat_le.mpr h)
  · exact isNearestToInt_ofInt (natAbs_toInt_lt n)
  · exact toInt64_ofInt64_of_le h
  · rw [Int64.le_iff_toInt_le, toInt_toInt64, toInt_toInt64]
    exact truncation_le_truncation h

/-- Two signed integers, two unsigned ones, the last integer that is exact, and minus zero. -/
theorem conversions_behave_well_at_ends :
    (ofInt64 Int64.minValue).le (ofInt64 Int64.maxValue) ∧
      (ofNat (0 : UInt64).toNat).le (ofNat (0xFFFFFFFFFFFFFFFF : UInt64).toNat) ∧
      (ofInt64 0x20000000000000).toInt64 = 0x20000000000000 ∧
      (zero true).toInt64 ≤ (infinity false).toInt64 ∧
      (zero true).cutOff.equals (zero true) := by
  obtain ⟨hsigned, hunsigned, _, hexact, _, hcut, _, hfixed⟩ := conversions_behave_well
  refine ⟨hsigned _ _ (by decide), hunsigned _ _ (by decide), hexact _ (by decide),
    hcut _ _ (by decide), (hfixed _).mpr ⟨0, by decide, by decide, ?_⟩⟩
  exact ⟨true, _, rfl, by decide +kernel⟩

end Calculator.Binary64
