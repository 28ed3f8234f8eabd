import Calculator.Binary64.Arithmetic
import Calculator.Binary64.Integer
import Calculator.Proofs.Binary64.Nearest

/-!
Whole numbers among the floating-point numbers. Negation keeps them whole, and so do sums,
differences and products unless they lie beyond the last finite magnitude. Every 64-bit integer is
rounded to a whole number.
-/

namespace Calculator.Binary64

/-- The number is finite and its exact value is the given integer. -/
def IsInteger (x : Binary64) (n : Int) : Prop :=
  ∃ negative rank, x = .finite negative rank ∧ signedUnits negative rank = n * unitsPerOne

/-- The number is finite and has no fraction. -/
def IsWhole (x : Binary64) : Prop :=
  ∃ n, x.IsInteger n

theorem natAbs_signedUnits (negative : Bool) (rank : Nat) :
    (signedUnits negative rank).natAbs = units rank := by
  cases negative
  · exact Int.natAbs_natCast _
  · exact (Int.natAbs_neg _).trans (Int.natAbs_natCast _)

theorem isWhole_finite_iff (negative : Bool) (rank : Fin rankCount) :
    (finite negative rank).IsWhole ↔ unitsPerOne ∣ units rank := by
  constructor
  · rintro ⟨n, _, _, hx, hn⟩
    cases hx
    have habs := congrArg Int.natAbs hn
    rw [natAbs_signedUnits, Int.natAbs_mul, Int.natAbs_natCast] at habs
    exact ⟨n.natAbs, habs.trans (Nat.mul_comm _ _)⟩
  · rintro ⟨k, hk⟩
    have hcast : (units rank : Int) = (k : Int) * unitsPerOne := by
      rw [hk, Int.natCast_mul, Int.mul_comm]
    cases negative
    · exact ⟨k, false, rank, rfl, hcast⟩
    · refine ⟨-k, true, rank, rfl, ?_⟩
      rw [Int.neg_mul, ← hcast]
      rfl

theorem IsWhole.isFinite {x : Binary64} (h : x.IsWhole) : x.isFinite := by
  obtain ⟨n, negative, rank, rfl, hn⟩ := h
  rfl

theorem isWhole_zero (negative : Bool) : (zero negative).IsWhole :=
  (isWhole_finite_iff negative _).mpr ⟨0, rfl⟩

/-- The magnitude nearest to a whole number is a whole number: either no digit of it is dropped that
is not zero, or what is kept is followed by more zeros than the number one has. -/
theorem unitsPerOne_dvd_units_nearestRank (n : Nat) :
    unitsPerOne ∣ units (nearestRank (n * unitsPerOne) 1) := by
  obtain ⟨dropped, hdropped⟩ : ∃ d, d = droppedDigits (n * unitsPerOne) 1 := ⟨_, rfl⟩
  by_cases hle : dropped ≤ unitPlaces
  · have hdvd : 1 <<< dropped ∣ n * unitsPerOne :=
      Nat.dvd_mul_left_of_dvd (one_shiftLeft_dvd hle) n
    rw [units_nearestRank_of_dvd (hdropped ▸ hdvd)]
    exact Nat.dvd_mul_left unitsPerOne n
  · rw [units_nearestRank, ← hdropped, Nat.shiftLeft_eq, ← Nat.one_shiftLeft]
    exact Nat.dvd_mul_left_of_dvd (one_shiftLeft_dvd (by omega)) _

theorem nearest_isWhole_or_infinite (negative : Bool) (n : Nat) :
    (nearest negative (n * unitsPerOne) 1).IsWhole ∨
      nearest negative (n * unitsPerOne) 1 = .infinity negative := by
  unfold nearest
  split
  · exact Or.inl ((isWhole_finite_iff negative _).mpr (unitsPerOne_dvd_units_nearestRank n))
  · exact Or.inr rfl

/-- Whole numbers below 2 ^ 64 are far from the last finite magnitude. -/
theorem nearestRank_lt_rankCount {n : Nat} (h : n < 0x10000000000000000) :
    nearestRank (n * unitsPerOne) 1 < rankCount := by
  have hplaces : unitPlaces = 1074 := by
    unfold unitPlaces
    rfl
  have hlt : n * unitsPerOne < 0x20000000000000 <<< (11 + unitPlaces) := by
    rw [unitsPerOne, Nat.one_shiftLeft, Nat.shiftLeft_add, Nat.shiftLeft_eq _ unitPlaces]
    exact Nat.mul_lt_mul_of_pos_right h (Nat.two_pow_pos unitPlaces)
  have hdropped := droppedDigits_le hlt
  have hkept := keptDigits_le (n * unitsPerOne) 1
  rw [nearestRank_eq]
  change _ < 0x7FF0000000000000
  omega

theorem nearest_isWhole (negative : Bool) {n : Nat} (h : n < 0x10000000000000000) :
    (nearest negative (n * unitsPerOne) 1).IsWhole := by
  unfold nearest
  rw [dif_pos (nearestRank_lt_rankCount h)]
  exact (isWhole_finite_iff negative _).mpr (unitsPerOne_dvd_units_nearestRank n)

theorem isWhole_ofNat {n : Nat} (h : n < 0x10000000000000000) : (ofNat n).IsWhole :=
  nearest_isWhole false h

theorem isWhole_ofInt64 (i : Int64) : (ofInt64 i).IsWhole := by
  have hlower := i.le_toInt
  have hupper := i.toInt_lt
  apply nearest_isWhole
  omega

section Operations

variable {x y : Binary64}

theorem IsWhole.neg (h : x.IsWhole) : (-x).IsWhole := by
  obtain ⟨n, negative, rank, rfl, hn⟩ := h
  have hwhole : (finite negative rank).IsWhole := ⟨n, negative, rank, rfl, hn⟩
  rw [isWhole_finite_iff] at hwhole
  exact (isWhole_finite_iff (!negative) rank).mpr hwhole

theorem IsWhole.add (hx : x.IsWhole) (hy : y.IsWhole) :
    (x + y).IsWhole ∨ ∃ negative, x + y = .infinity negative := by
  obtain ⟨m, a, i, rfl, hm⟩ := hx
  obtain ⟨n, b, j, rfl, hn⟩ := hy
  have hsum : signedUnits a i + signedUnits b j = (m + n) * unitsPerOne := by
    rw [hm, hn, Int.add_mul]
  change (Binary64.add _ _).IsWhole ∨ ∃ negative, Binary64.add _ _ = .infinity negative
  unfold Binary64.add
  dsimp only
  split
  · exact Or.inl (isWhole_zero (a && b))
  · rw [hsum, Int.natAbs_mul, Int.natAbs_natCast]
    rcases nearest_isWhole_or_infinite _ (m + n).natAbs with h | h
    · exact Or.inl h
    · exact Or.inr ⟨_, h⟩

theorem IsWhole.sub (hx : x.IsWhole) (hy : y.IsWhole) :
    (x - y).IsWhole ∨ ∃ negative, x - y = .infinity negative :=
  hx.add hy.neg

theorem IsWhole.mul (hx : x.IsWhole) (hy : y.IsWhole) :
    (x * y).IsWhole ∨ ∃ negative, x * y = .infinity negative := by
  obtain ⟨m, a, i, rfl, hm⟩ := hx
  obtain ⟨n, b, j, rfl, hn⟩ := hy
  obtain ⟨k, hk⟩ := (isWhole_finite_iff a i).mp ⟨m, a, i, rfl, hm⟩
  obtain ⟨l, hl⟩ := (isWhole_finite_iff b j).mp ⟨n, b, j, rfl, hn⟩
  have hproduct : units i * units j = k * l * unitsPerOne * unitsPerOne := by
    rw [hk, hl]
    ac_rfl
  have hnearest : nearest (a ^^ b) (units i * units j) unitsPerOne =
      nearest (a ^^ b) (k * l * unitsPerOne) 1 := by
    rw [hproduct]
    have hscale := nearest_mul_mul_right unitsPerOne_pos (a ^^ b) (k * l * unitsPerOne) 1
    rw [Nat.one_mul] at hscale
    exact hscale
  change (nearest (a ^^ b) (units i * units j) unitsPerOne).IsWhole ∨
    ∃ negative, nearest (a ^^ b) (units i * units j) unitsPerOne = .infinity negative
  rw [hnearest]
  rcases nearest_isWhole_or_infinite (a ^^ b) (k * l) with h | h
  · exact Or.inl h
  · exact Or.inr ⟨_, h⟩

theorem isFinite_of_neg (h : (-x).isFinite) : x.isFinite := by
  cases x with
  | nan => exact h
  | infinity => exact h
  | finite => rfl

theorem isFinite_of_add (h : (x + y).isFinite) : x.isFinite ∧ y.isFinite := by
  cases x with
  | nan => cases h
  | infinity a =>
      cases y with
      | nan => cases h
      | infinity b =>
          change (if a = b then infinity a else quietNan).isFinite = true at h
          split at h <;> cases h
      | finite => cases h
  | finite =>
      cases y with
      | nan => cases h
      | infinity => cases h
      | finite => exact ⟨rfl, rfl⟩

theorem isFinite_of_sub (h : (x - y).isFinite) : x.isFinite ∧ y.isFinite := by
  obtain ⟨hx, hy⟩ := isFinite_of_add h
  exact ⟨hx, isFinite_of_neg hy⟩

theorem isFinite_of_mul (h : (x * y).isFinite) : x.isFinite ∧ y.isFinite := by
  cases x with
  | nan => cases h
  | infinity a =>
      cases y with
      | nan => cases h
      | infinity => cases h
      | finite b j =>
          change (if j.val = 0 then quietNan else infinity (a ^^ b)).isFinite = true at h
          split at h <;> cases h
  | finite a i =>
      cases y with
      | nan => cases h
      | infinity b =>
          change (if i.val = 0 then quietNan else infinity (a ^^ b)).isFinite = true at h
          split at h <;> cases h
      | finite => exact ⟨rfl, rfl⟩

end Operations

/-- A whole number is cut off to itself, or to the nearest 64-bit integer if it is none. -/
theorem IsInteger.toInt64_eq {x : Binary64} {n : Int} (h : x.IsInteger n) :
    x.toInt64 = Int64.ofIntClamp n := by
  obtain ⟨negative, rank, rfl, hn⟩ := h
  have hpos : (unitsPerOne : Int) ≠ 0 := Int.natCast_ne_zero.mpr (Nat.ne_of_gt unitsPerOne_pos)
  rw [toInt64, wholePart, hn, Int.mul_tdiv_cancel n hpos]

end Calculator.Binary64
