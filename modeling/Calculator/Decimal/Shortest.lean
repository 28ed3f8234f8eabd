import Calculator.Decimal.Basic

/-!
The shortest decimal that reads back as a given 64-bit magnitude. The multiples of each power of
ten form a grid; grids are tried from coarse to fine, and on each of them the two points around the
magnitude. The magnitude itself is a decimal too, with as many places as a unit has binary places,
so there always is one that reads back.
-/

namespace Calculator.Decimal

def exact (rank : Nat) : Decimal where
  digits := Binary64.units rank * Nat.pow 5 Binary64.unitPlaces
  exponent := -Binary64.unitPlaces

/-- The multiple of 10 ^ `exponent` that comes last before or at the magnitude of the rank. -/
def floorOnGrid (rank : Nat) (exponent : Int) : Decimal where
  digits := Binary64.units rank * Nat.pow 10 (-exponent).toNat /
    (Nat.pow 10 exponent.toNat * Binary64.unitsPerOne)
  exponent := exponent

def next (d : Decimal) : Decimal :=
  ⟨d.digits + 1, d.exponent⟩

/-- Whether the magnitude of the rank lies nearer to `d` than to the next point of its grid. -/
def isNearer (rank : Nat) (d : Decimal) : Bool :=
  2 * Binary64.units rank * d.denominator < d.numerator + d.next.numerator

/-- The point of the grid of 10 ^ `exponent` that reads back as the magnitude of the rank, if there
is one among the two points around it. Of two that do, the nearer one is taken, and of two equally
near ones the upper one. -/
def onGrid? (rank : Nat) (exponent : Int) : Option Decimal :=
  let lower := floorOnGrid rank exponent
  if lower.nearestRank = rank then
    if isNearer rank lower || lower.next.nearestRank ≠ rank then some lower else some lower.next
  else if lower.next.nearestRank = rank then some lower.next
  else none

/-- The number of digits of the whole part of the magnitude. On a coarser grid than that the first
point after zero is more than ten times the magnitude. -/
def wholeDigits (rank : Nat) : Nat :=
  (Nat.toDigits 10 (Binary64.units rank / Binary64.unitsPerOne)).length

def gridExponents (rank : Nat) : List Int :=
  let first := wholeDigits rank
  (List.range (first + Binary64.unitPlaces)).map fun (i : Nat) => (first : Int) - i

/-- The decimal with the fewest digits that reads back as the magnitude of the rank. -/
def shortest (rank : Nat) : Decimal :=
  ((gridExponents rank).findSome? (onGrid? rank)).getD (exact rank)

theorem nearestRank_of_onGrid? {rank : Nat} {exponent : Int} {d : Decimal}
    (h : onGrid? rank exponent = some d) : d.nearestRank = rank := by
  unfold onGrid? at h
  generalize floorOnGrid rank exponent = lower at h
  by_cases hlower : lower.nearestRank = rank
  · by_cases hupper : lower.next.nearestRank = rank
    · simp only [hlower, hupper, if_true] at h
      split at h
      · exact Option.some.inj h ▸ hlower
      · exact Option.some.inj h ▸ hupper
    · simp [hlower, hupper] at h
      exact h ▸ hlower
  · by_cases hupper : lower.next.nearestRank = rank
    · simp [hlower, hupper] at h
      exact h ▸ hupper
    · simp [hlower, hupper] at h

private theorem toNat_neg_natCast (n : Nat) : (-(n : Int)).toNat = 0 := by
  omega

private theorem toNat_neg_neg_natCast (n : Nat) : (-(-(n : Int))).toNat = n := by
  omega

/-- The exact decimal of a magnitude reads back as it. -/
theorem nearestRank_exact (rank : Nat) : (exact rank).nearestRank = rank := by
  have hpow : Nat.pow 5 Binary64.unitPlaces * Binary64.unitsPerOne =
      Nat.pow 10 Binary64.unitPlaces := by
    rw [Binary64.unitsPerOne, Nat.one_shiftLeft]
    exact (Nat.mul_pow 5 2 Binary64.unitPlaces).symm
  have hnum : (exact rank).numerator =
      Binary64.units rank * Nat.pow 10 Binary64.unitPlaces := by
    simp only [numerator, exact, toNat_neg_natCast]
    rw [show Nat.pow 10 0 = 1 from rfl, Nat.mul_one, Nat.mul_assoc, hpow]
  have hden : (exact rank).denominator = Nat.pow 10 Binary64.unitPlaces := by
    simp only [denominator, exact, toNat_neg_neg_natCast]
  rw [nearestRank, hnum, hden]
  exact Binary64.nearestRank_units rank (Nat.pow_pos (by decide))

/-- The shortest decimal of a magnitude reads back as it. -/
theorem nearestRank_shortest (rank : Nat) : (shortest rank).nearestRank = rank := by
  unfold shortest
  cases h : (gridExponents rank).findSome? (onGrid? rank) with
  | none => exact nearestRank_exact rank
  | some d =>
      obtain ⟨exponent, _, hgrid⟩ := List.exists_of_findSome?_eq_some h
      exact nearestRank_of_onGrid? hgrid

end Calculator.Decimal
