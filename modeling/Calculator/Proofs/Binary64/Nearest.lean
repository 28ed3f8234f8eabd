import Calculator.Binary64.Rounding

/-!
The magnitude that rounding arrives at: the digits that are kept, followed by as many binary zeros
as there were digits dropped. No other magnitude is nearer to what was rounded, and one that is as
near leaves the choice to the one of even rank.
-/

namespace Calculator.Binary64

/-- How many binary digits of a quotient are dropped, so that no more than 53 are kept. -/
def droppedDigits (num den : Nat) : Nat :=
  (num / den).log2 - 52

def keptDigits (num den : Nat) : Nat :=
  roundDiv num (den <<< droppedDigits num den)

theorem nearestRank_eq (num den : Nat) :
    nearestRank num den = droppedDigits num den * 0x10000000000000 + keptDigits num den :=
  rfl

theorem roundDiv_eq_or (num den : Nat) :
    roundDiv num den = num / den ∨ roundDiv num den = num / den + 1 := by
  unfold roundDiv
  dsimp only
  split
  · exact Or.inl rfl
  · exact Or.inr rfl

theorem roundDiv_mul_mul_right {factor : Nat} (hfactor : 0 < factor) (num den : Nat) :
    roundDiv (num * factor) (den * factor) = roundDiv num den := by
  have hquotient : num * factor / (den * factor) = num / den :=
    Nat.mul_div_mul_right num den hfactor
  have htwice : 2 * (num * factor % (den * factor)) = 2 * (num % den) * factor := by
    rw [Nat.mul_mod_mul_right, Nat.mul_assoc]
  have hlt : 2 * (num % den) * factor < den * factor ↔ 2 * (num % den) < den :=
    Nat.mul_lt_mul_right hfactor
  have heq : 2 * (num % den) * factor = den * factor ↔ 2 * (num % den) = den :=
    Nat.mul_left_inj (Nat.ne_of_gt hfactor)
  simp only [roundDiv, hquotient, htwice, hlt, heq]

/-- Rounding depends on the quotient only. -/
theorem nearestRank_mul_mul_right {factor : Nat} (hfactor : 0 < factor) (num den : Nat) :
    nearestRank (num * factor) (den * factor) = nearestRank num den := by
  have hquotient : num * factor / (den * factor) = num / den :=
    Nat.mul_div_mul_right num den hfactor
  have hshift : ∀ n, (den * factor) <<< n = (den <<< n) * factor := by
    intro n
    rw [Nat.shiftLeft_eq, Nat.shiftLeft_eq, Nat.mul_right_comm]
  simp only [nearestRank, hquotient, hshift, roundDiv_mul_mul_right hfactor]

theorem nearest_mul_mul_right {factor : Nat} (hfactor : 0 < factor) (negative : Bool)
    (num den : Nat) :
    nearest negative (num * factor) (den * factor) = nearest negative num den := by
  simp only [nearest, nearestRank_mul_mul_right hfactor]

section KeptDigits

variable {num den : Nat}

/-- At most 53 digits are kept, or the power of two that follows. -/
theorem keptDigits_le (num den : Nat) : keptDigits num den ≤ 0x20000000000000 := by
  have hlog : num / den < 2 ^ ((num / den).log2 + 1) := Nat.lt_log2_self
  have hpow : 2 ^ ((num / den).log2 + 1) ≤ 2 ^ (53 + droppedDigits num den) := by
    apply Nat.pow_le_pow_right (by decide)
    unfold droppedDigits
    omega
  have hquotient : num / (den <<< droppedDigits num den) < 2 ^ 53 := by
    rw [Nat.shiftLeft_eq, ← Nat.div_div_eq_div_mul, Nat.div_lt_iff_lt_mul (Nat.two_pow_pos _),
      ← Nat.pow_add]
    exact Nat.lt_of_lt_of_le hlog hpow
  rcases roundDiv_eq_or num (den <<< droppedDigits num den) with h | h <;>
    · unfold keptDigits
      omega

/-- Where digits are dropped, there are all the 53 that are kept. -/
theorem least_le_of_droppedDigits (h : droppedDigits num den ≠ 0) :
    0x10000000000000 <<< droppedDigits num den ≤ num / den := by
  have hlog : 52 + droppedDigits num den = (num / den).log2 := by
    unfold droppedDigits at h ⊢
    omega
  have hne : num / den ≠ 0 := by
    intro hzero
    rw [hzero, Nat.log2_zero] at hlog
    omega
  have hleast : 0x10000000000000 <<< droppedDigits num den = 2 ^ (52 + droppedDigits num den) :=
    (Nat.shiftLeft_eq _ _).trans (Nat.pow_add 2 52 _).symm
  rw [hleast, hlog]
  exact Nat.log2_self_le hne

/-- All 53 digits are kept where any are dropped. -/
theorem le_keptDigits (h : droppedDigits num den ≠ 0) : 0x10000000000000 ≤ keptDigits num den := by
  have hquotient : 0x10000000000000 ≤ num / (den <<< droppedDigits num den) := by
    rw [Nat.shiftLeft_eq, ← Nat.div_div_eq_div_mul, Nat.le_div_iff_mul_le (Nat.two_pow_pos _),
      ← Nat.shiftLeft_eq]
    exact least_le_of_droppedDigits h
  rcases roundDiv_eq_or num (den <<< droppedDigits num den) with h | h <;>
    · unfold keptDigits
      omega

/-- The magnitude of a rank that is made up of a stretch and digits within it. -/
theorem units_stretch {dropped kept : Nat} (hle : kept ≤ 0x20000000000000)
    (hge : dropped ≠ 0 → 0x10000000000000 ≤ kept) :
    units (dropped * 0x10000000000000 + kept) = kept <<< dropped := by
  by_cases hsmall : dropped * 0x10000000000000 + kept < 0x20000000000000
  · have hzero : dropped = 0 := by omega
    rw [units_of_lt hsmall, hzero, Nat.shiftLeft_zero]
    omega
  · unfold units
    rw [if_neg hsmall]
    by_cases hfull : kept = 0x20000000000000
    -- Digits that were rounded up to a power of two start the next stretch.
    · have hmod : (dropped * 0x10000000000000 + kept) % 0x10000000000000 = 0 := by omega
      have hdiv : (dropped * 0x10000000000000 + kept) / 0x10000000000000 - 1 = dropped + 1 := by
        omega
      rw [hmod, hdiv, hfull, Nat.shiftLeft_eq, Nat.shiftLeft_eq, Nat.pow_succ]
      omega
    · have hmod : 0x10000000000000 + (dropped * 0x10000000000000 + kept) % 0x10000000000000 =
          kept := by
        omega
      have hdiv : (dropped * 0x10000000000000 + kept) / 0x10000000000000 - 1 = dropped := by
        omega
      rw [hmod, hdiv]

/-- The nearest magnitude is made of the digits that are kept. -/
theorem units_nearestRank (num den : Nat) :
    units (nearestRank num den) = keptDigits num den <<< droppedDigits num den := by
  rw [nearestRank_eq]
  exact units_stretch (keptDigits_le num den) le_keptDigits

theorem droppedDigits_le {places : Nat} (h : num < 0x20000000000000 <<< places) :
    droppedDigits num 1 ≤ places := by
  have hlt : num < 2 ^ (53 + places) :=
    Nat.lt_of_lt_of_eq h ((Nat.shiftLeft_eq _ _).trans (Nat.pow_add 2 53 places).symm)
  unfold droppedDigits
  rw [Nat.div_one]
  by_cases hzero : num = 0
  · rw [hzero, Nat.log2_zero]
    omega
  · have hlog := (Nat.log2_lt hzero).mpr hlt
    omega

theorem one_shiftLeft_pos (n : Nat) : 0 < 1 <<< n := by
  rw [Nat.one_shiftLeft]
  exact Nat.two_pow_pos n

theorem one_shiftLeft_dvd {m n : Nat} (h : m ≤ n) : 1 <<< m ∣ 1 <<< n := by
  rw [Nat.one_shiftLeft, Nat.one_shiftLeft]
  exact Nat.pow_dvd_pow 2 h

/-- Where all digits that are dropped are zeros, rounding changes nothing. -/
theorem units_nearestRank_of_dvd (h : 1 <<< droppedDigits num 1 ∣ num) :
    units (nearestRank num 1) = num := by
  rw [units_nearestRank, keptDigits]
  generalize droppedDigits num 1 = dropped at h ⊢
  obtain ⟨kept, rfl⟩ := h
  rw [Nat.mul_comm, roundDiv_mul_left (one_shiftLeft_pos dropped), Nat.shiftLeft_eq,
    Nat.one_shiftLeft]

end KeptDigits

section Distance

variable {num den : Nat}

def distance (num den steps : Nat) : Nat :=
  ((steps * den : Nat) - num : Int).natAbs

theorem distance_mul_left (num den factor steps : Nat) :
    distance num den (steps * factor) = distance num (den * factor) steps := by
  rw [distance, distance, Nat.mul_assoc, Nat.mul_comm factor]

/-- No number of steps leads nearer than the one that rounding gives, and where another one leads
as near, the one that rounding gives is even. -/
theorem roundDiv_nearest (num : Nat) (hden : 0 < den) (steps : Nat) :
    distance num den (roundDiv num den) ≤ distance num den steps ∧
      (steps ≠ roundDiv num den →
        distance num den steps = distance num den (roundDiv num den) →
          roundDiv num den % 2 = 0) := by
  have hsplit := Nat.div_add_mod num den
  have hmod := Nat.mod_lt num hden
  rw [Nat.mul_comm] at hsplit
  have hcases : steps + 1 ≤ num / den ∨ steps = num / den ∨ steps = num / den + 1 ∨
      num / den + 2 ≤ steps := by
    omega
  unfold roundDiv distance
  dsimp only
  generalize num / den = quotient at *
  have hnext : (quotient + 1) * den = quotient * den + den := Nat.succ_mul quotient den
  rcases hcases with hbelow | rfl | rfl | habove
  · have hle := Nat.mul_le_mul_right den hbelow
    rw [Nat.succ_mul] at hle
    split <;> omega
  · split <;> omega
  · split <;> omega
  · have hle := Nat.mul_le_mul_right den habove
    rw [Nat.add_mul] at hle
    split <;> omega

/-- The rank of the magnitude nearest to `num / den` units, the even one of two. -/
structure IsNearestRank (num den rank : Nat) : Prop where
  nearest (other : Nat) : distance num den (units rank) ≤ distance num den (units other)
  even (other : Nat) : other ≠ rank →
    distance num den (units other) = distance num den (units rank) → rank % 2 = 0

theorem units_injective {rank other : Nat} (h : units rank = units other) : rank = other := by
  have hrank := nearestRank_units rank Nat.one_pos
  rw [h, nearestRank_units other Nat.one_pos] at hrank
  exact hrank.symm

/-- A magnitude has at most 53 binary digits in front of the zeros that it ends in. -/
theorem exists_units_eq (rank : Nat) :
    ∃ digits zeros, digits < 0x20000000000000 ∧ units rank = digits <<< zeros := by
  unfold units
  split
  · exact ⟨rank, 0, ‹_›, Nat.shiftLeft_zero.symm⟩
  · exact ⟨_, _, by omega, rfl⟩

theorem units_lt_or_dvd (dropped rank : Nat) :
    units rank < 0x10000000000000 <<< dropped ∧ dropped ≠ 0 ∨ 1 <<< dropped ∣ units rank := by
  obtain ⟨digits, zeros, hdigits, hunits⟩ := exists_units_eq rank
  rw [hunits, Nat.shiftLeft_eq, Nat.shiftLeft_eq, Nat.one_shiftLeft]
  by_cases hzeros : dropped ≤ zeros
  · exact .inr (Nat.dvd_mul_left_of_dvd (Nat.pow_dvd_pow 2 hzeros) digits)
  · refine .inl ⟨?_, by omega⟩
    have hlt : digits * 2 ^ zeros < 0x20000000000000 * 2 ^ zeros :=
      Nat.mul_lt_mul_of_pos_right hdigits (Nat.two_pow_pos zeros)
    have hle : 2 ^ (zeros + 1) ≤ 2 ^ dropped := Nat.pow_le_pow_right (by decide) (by omega)
    rw [Nat.pow_succ] at hle
    omega

/-- Rounding gives the nearest magnitude. -/
theorem nearestRank_isNearestRank (num : Nat) (hden : 0 < den) :
    IsNearestRank num den (nearestRank num den) := by
  obtain ⟨dropped, hdropped⟩ : ∃ d, d = droppedDigits num den := ⟨_, rfl⟩
  have hsteps : 0 < den * 1 <<< dropped := Nat.mul_pos hden (one_shiftLeft_pos dropped)
  have hkept : keptDigits num den = roundDiv num (den * 1 <<< dropped) := by
    rw [keptDigits, ← hdropped, Nat.shiftLeft_eq, Nat.one_shiftLeft]
  have hunits : units (nearestRank num den) =
      roundDiv num (den * 1 <<< dropped) * 1 <<< dropped := by
    rw [units_nearestRank, hkept, ← hdropped, Nat.shiftLeft_eq _ dropped, Nat.one_shiftLeft]
  have heven : nearestRank num den % 2 = roundDiv num (den * 1 <<< dropped) % 2 := by
    rw [nearestRank_eq, hkept]
    omega
  -- what has few digits is farther away than the least magnitude of which all digits are kept
  have hfew : ∀ other, units other < 0x10000000000000 <<< dropped ∧ dropped ≠ 0 →
      distance num den (units (nearestRank num den)) < distance num den (units other) := by
    rintro other ⟨hlt, hne⟩
    have hnum : 0x10000000000000 <<< dropped * den ≤ num := by
      rw [← Nat.le_div_iff_mul_le hden, hdropped]
      exact least_le_of_droppedDigits (hdropped ▸ hne)
    have hother : units other * den < 0x10000000000000 <<< dropped * den :=
      Nat.mul_lt_mul_of_pos_right hlt hden
    have hleast : distance num den (units (nearestRank num den)) ≤
        distance num den (0x10000000000000 <<< dropped) := by
      rw [hunits, Nat.shiftLeft_eq 0x10000000000000, ← Nat.one_shiftLeft, distance_mul_left,
        distance_mul_left]
      exact (roundDiv_nearest num hsteps _).1
    refine Nat.lt_of_le_of_lt hleast ?_
    unfold distance
    omega
  constructor
  · intro other
    rcases units_lt_or_dvd dropped other with h | ⟨k, hk⟩
    · exact Nat.le_of_lt (hfew other h)
    · rw [hk, Nat.mul_comm, hunits, distance_mul_left, distance_mul_left]
      exact (roundDiv_nearest num hsteps k).1
  · intro other hne hsame
    rcases units_lt_or_dvd dropped other with h | ⟨k, hk⟩
    · exact absurd hsame (Nat.ne_of_gt (hfew other h))
    · rw [heven]
      rw [hk, Nat.mul_comm, hunits, distance_mul_left, distance_mul_left] at hsame
      refine (roundDiv_nearest num hsteps k).2 (fun heq => hne (units_injective ?_)) hsame
      rw [hk, hunits, heq, Nat.mul_comm]

end Distance

end Calculator.Binary64
