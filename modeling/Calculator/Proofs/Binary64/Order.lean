import Calculator.Proofs.Binary64.Nearest

/-!
The order of magnitudes, and what rounding has to do with it. A higher rank is a greater magnitude,
rounding never passes a magnitude, and what is halfway from the last finite magnitude to the one
that would follow it, or beyond, is rounded past the last one.
-/

namespace Calculator.Binary64

theorem units_lt_units_succ (rank : Nat) : units rank < units (rank + 1) := by
  have hsplit : ∃ dropped kept, rank = dropped * 0x10000000000000 + kept ∧
      kept < 0x20000000000000 ∧ (dropped ≠ 0 → 0x10000000000000 ≤ kept) :=
    ⟨rank / 0x10000000000000 - 1, rank - (rank / 0x10000000000000 - 1) * 0x10000000000000,
      by omega, by omega, by omega⟩
  obtain ⟨dropped, kept, rfl, hlt, hge⟩ := hsplit
  rw [Nat.add_assoc, units_stretch (Nat.le_of_lt hlt) hge,
    units_stretch hlt fun h => Nat.le_succ_of_le (hge h), Nat.shiftLeft_eq, Nat.shiftLeft_eq]
  exact Nat.mul_lt_mul_of_pos_right (Nat.lt_succ_self kept) (Nat.two_pow_pos dropped)

theorem units_lt_units {rank other : Nat} (h : rank < other) : units rank < units other := by
  induction h with
  | refl => exact units_lt_units_succ rank
  | step _ ih => exact Nat.lt_trans ih (units_lt_units_succ _)

theorem units_le_units {rank other : Nat} (h : rank ≤ other) : units rank ≤ units other := by
  rcases Nat.lt_or_eq_of_le h with h | rfl
  · exact Nat.le_of_lt (units_lt_units h)
  · exact Nat.le_refl _

section Rounding

variable {num den : Nat} (hden : 0 < den)

include hden

theorem units_mul_lt_units_mul {rank other : Nat} (h : rank < other) :
    units rank * den < units other * den :=
  Nat.mul_lt_mul_of_pos_right (units_lt_units h) hden

/-- What is not above a magnitude is not rounded to one above it. -/
theorem nearestRank_le {rank : Nat} (h : num ≤ units rank * den) : nearestRank num den ≤ rank := by
  apply Nat.le_of_not_lt
  intro hlt
  have hnearest := (nearestRank_isNearestRank num hden).nearest rank
  have hbeyond := units_mul_lt_units_mul hden hlt
  unfold distance at hnearest
  omega

/-- What is not below a magnitude is not rounded to one below it. -/
theorem le_nearestRank {rank : Nat} (h : units rank * den ≤ num) : rank ≤ nearestRank num den := by
  apply Nat.le_of_not_lt
  intro hlt
  have hnearest := (nearestRank_isNearestRank num hden).nearest rank
  have hbeyond := units_mul_lt_units_mul hden hlt
  unfold distance at hnearest
  omega

/-- What lies before the middle between an odd rank and the next one is not rounded up to that one,
and what lies at the middle or behind it is. -/
theorem nearestRank_le_iff_of_odd {rank : Nat} (hodd : rank % 2 = 1) :
    nearestRank num den ≤ rank ↔ 2 * num < (units rank + units (rank + 1)) * den := by
  have hnearest := nearestRank_isNearestRank num hden
  have hstep := units_mul_lt_units_mul hden (Nat.lt_add_one rank)
  rw [Nat.add_mul]
  constructor
  · intro hle
    have hbelow : units (nearestRank num den) * den ≤ units rank * den :=
      Nat.mul_le_mul_right den (units_le_units hle)
    have habove := hnearest.nearest (rank + 1)
    have hnext := hnearest.even (rank + 1) (by omega)
    apply Nat.lt_of_not_le
    intro hmiddle
    -- as near as the next rank, and thus even, which the rank before the next one is not
    have hsame : distance num den (units (rank + 1)) =
        distance num den (units (nearestRank num den)) := by
      unfold distance at habove ⊢
      omega
    have heven := hnext hsame
    have hless := units_mul_lt_units_mul hden (show nearestRank num den < rank by omega)
    unfold distance at habove
    omega
  · intro hmiddle
    apply Nat.le_of_not_lt
    intro hlt
    have habove : units (rank + 1) * den ≤ units (nearestRank num den) * den :=
      Nat.mul_le_mul_right den (units_le_units hlt)
    have hbelow := hnearest.nearest rank
    unfold distance at hbelow
    omega

end Rounding

/-- The least magnitude that is rounded past the last finite one: the middle between 2 ^ 1024 and
the greatest number below it. -/
def overflowBound : Nat :=
  1 <<< 1024 - 1 <<< 970

/-- A quotient is rounded to a finite magnitude exactly if it is below the bound. -/
theorem nearestRank_lt_rankCount_iff {num den : Nat} (hden : 0 < den) :
    nearestRank num den < rankCount ↔ num < overflowBound * unitsPerOne * den := by
  have hmiddle : units 0x7FEFFFFFFFFFFFFF + units (0x7FEFFFFFFFFFFFFF + 1) =
      2 * (overflowBound * unitsPerOne) := by
    decide +kernel
  have hodd := @nearestRank_le_iff_of_odd num den hden 0x7FEFFFFFFFFFFFFF rfl
  rw [hmiddle, Nat.mul_assoc, Nat.mul_lt_mul_left Nat.two_pos] at hodd
  rw [← hodd]
  exact Nat.lt_succ_iff

end Calculator.Binary64
