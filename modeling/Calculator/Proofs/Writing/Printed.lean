import Calculator.Binary64.Text
import Calculator.Calculate
import Calculator.Proofs.Binary64.Order
import Calculator.Proofs.Binary64.Truncation
import Calculator.Proofs.Writing.Digits
import Calculator.Proofs.Writing.SingleNumber

/-!
Typing a printed result in again. A number below 2 ^ 64 comes back bit by bit: where it is printed
with a point it is read as the fraction that its digits write, and where it is printed without one
its padded digits are still below 2 ^ 64 and are rounded to it. The digits of any greater number
are an integer literal too large to be read.
-/

namespace Calculator

open Binary64 (units unitsPerOne unitPlaces unitsPerOne_pos rankCount)

namespace Decimal

theorem exponent_of_onGrid? {rank : Nat} {exponent : Int} {d : Decimal}
    (h : onGrid? rank exponent = some d) : d.exponent = exponent := by
  unfold onGrid? at h
  dsimp only at h
  split at h
  · split at h <;> cases h <;> rfl
  · split at h
    · cases h
      rfl
    · cases h

/-- A whole magnitude is a point of the grid of whole numbers. -/
theorem onGrid?_zero_ne_none {rank : Nat} (h : unitsPerOne ∣ units rank) :
    onGrid? rank 0 ≠ none := by
  obtain ⟨k, hk⟩ := h
  have hdigits : units rank * Nat.pow 10 0 / (Nat.pow 10 0 * unitsPerOne) = k := by
    rw [hk, show Nat.pow 10 0 = 1 from rfl, Nat.mul_one, Nat.one_mul,
      Nat.mul_div_cancel_left k unitsPerOne_pos]
  have hfloor : floorOnGrid rank 0 = ⟨k, 0⟩ := congrArg (Decimal.mk · 0) hdigits
  have hrank : (floorOnGrid rank 0).nearestRank = rank := by
    rw [hfloor, nearestRank, numerator, denominator]
    have hself := Binary64.nearestRank_units rank Nat.one_pos
    rw [hk, Nat.mul_one, Nat.mul_comm] at hself
    rw [show Nat.pow 10 (0 : Int).toNat = 1 from rfl, Nat.mul_one]
    exact hself
  unfold onGrid?
  dsimp only
  rw [if_pos hrank]
  split <;> exact Option.some_ne_none _

/-- The shortest decimal of a whole magnitude has no point: grids are tried from coarse to fine, and
that of the whole numbers comes before any finer one. -/
theorem exponent_shortest_nonneg {rank : Nat} (h : unitsPerOne ∣ units rank) :
    0 ≤ (shortest rank).exponent := by
  have hmem : (0 : Int) ∈ gridExponents rank := by
    have hplaces : 0 < unitPlaces := by
      unfold unitPlaces
      decide
    refine List.mem_map.mpr ⟨wholeDigits rank, List.mem_range.mpr ?_, Int.sub_self _⟩
    exact Nat.lt_add_of_pos_right hplaces
  have hfalling : (gridExponents rank).Pairwise (· > ·) := by
    refine List.Pairwise.map _ (fun i j hlt => ?_) List.pairwise_lt_range
    omega
  unfold shortest
  cases hfind : (gridExponents rank).findSome? (onGrid? rank) with
  | none => exact absurd (List.findSome?_eq_none_iff.mp hfind 0 hmem) (onGrid?_zero_ne_none h)
  | some d =>
      obtain ⟨before, exponent, after, hsplit, hd, hbefore⟩ := List.findSome?_eq_some_iff.mp hfind
      change 0 ≤ d.exponent
      rw [exponent_of_onGrid? hd]
      rw [hsplit, List.mem_append, List.mem_cons] at hmem
      rcases hmem with hmem | rfl | hmem
      · exact absurd (hbefore 0 hmem) (onGrid?_zero_ne_none h)
      · exact Int.le_refl 0
      · rw [hsplit, List.pairwise_append, List.pairwise_cons] at hfalling
        exact Int.le_of_lt (hfalling.2.1.1 0 hmem)

end Decimal

namespace Binary64

/-- A magnitude of 2 ^ 53 or more is a whole number. -/
theorem unitsPerOne_dvd_units {rank : Nat} (h : 0x20000000000000 * unitsPerOne ≤ units rank) :
    unitsPerOne ∣ units rank := by
  obtain ⟨digits, zeros, hdigits, hunits⟩ := exists_units_eq rank
  rw [hunits, Nat.shiftLeft_eq, unitsPerOne, Nat.one_shiftLeft] at h ⊢
  have hzeros : unitPlaces ≤ zeros := by
    apply Nat.le_of_not_lt
    intro hlt
    have hpow : 2 ^ zeros ≤ 2 ^ unitPlaces := Nat.pow_le_pow_right Nat.two_pos (Nat.le_of_lt hlt)
    have hbelow : digits * 2 ^ zeros < 0x20000000000000 * 2 ^ unitPlaces :=
      Nat.mul_lt_mul_of_lt_of_le hdigits hpow (Nat.two_pow_pos _)
    exact absurd h (Nat.not_le.mpr hbelow)
  exact Nat.dvd_mul_left_of_dvd (Nat.pow_dvd_pow 2 hzeros) digits

def boundRank : Nat := 0x43F0000000000000

theorem units_boundRank : units boundRank = 0x10000000000000000 * unitsPerOne := by
  decide +kernel

end Binary64

open Binary64 (boundRank units_boundRank)

namespace Decimal

/-- The digits of 2 ^ 64 write a number that is greater. -/
theorem shortest_boundRank : shortest boundRank = ⟨18446744073709552, 3⟩ := by
  decide +kernel

/-- What digits without a point write is below 2 ^ 64 exactly if the magnitude that they stand for
is, although it may be another number. -/
theorem shortest_lt_iff {rank : Nat} (h : 0 ≤ (shortest rank).exponent) :
    (shortest rank).digits * Nat.pow 10 (shortest rank).exponent.toNat < 0x10000000000000000 ↔
      units rank < 0x10000000000000000 * unitsPerOne := by
  obtain ⟨n, hn⟩ : ∃ n,
      n = (shortest rank).digits * Nat.pow 10 (shortest rank).exponent.toNat := ⟨_, rfl⟩
  have hrank : Binary64.nearestRank (n * unitsPerOne) 1 = rank := by
    have hdown : (-(shortest rank).exponent).toNat = 0 := by omega
    have hself := nearestRank_shortest rank
    rwa [nearestRank, numerator, denominator, hdown, ← hn] at hself
  rw [← hn, ← units_boundRank]
  constructor
  · intro hlt
    have hle : rank ≤ boundRank := by
      rw [← hrank]
      apply Binary64.nearestRank_le Nat.one_pos
      rw [units_boundRank, Nat.mul_one]
      exact Nat.mul_le_mul_right _ (Nat.le_of_lt hlt)
    apply Binary64.units_lt_units
    apply Nat.lt_of_le_of_ne hle
    -- numbers just below 2 ^ 64 are rounded to it, but its digits write none of them
    rintro rfl
    rw [shortest_boundRank] at hn
    exact absurd hlt (hn ▸ by decide)
  · intro hlt
    apply Nat.lt_of_not_le
    intro hle
    have hge : boundRank ≤ rank := by
      rw [← hrank]
      apply Binary64.le_nearestRank Nat.one_pos
      rw [units_boundRank, Nat.mul_one]
      exact Nat.mul_le_mul_right _ hle
    exact absurd hlt (Nat.not_lt.mpr (Binary64.units_le_units hge))

end Decimal

/-- The digits of a magnitude are a number literal. It is read as the magnitude if that is below
2 ^ 64, and otherwise not at all. -/
theorem Numeral.exists_read?_shortest (rank : Fin rankCount) :
    ∃ kind ∈ Token.Kind.numerals, ∃ numericType,
      Matches (.token kind) (Decimal.shortest rank).positional ∧
        Numeral.read? kind (Decimal.shortest rank).positional =
          if (Binary64.finite false rank).isBelow 0x10000000000000000 then
            some (.finite false rank, numericType) else none := by
  by_cases h : 0 ≤ (Decimal.shortest rank).exponent
  · obtain ⟨hne, hdigits, hvalue⟩ := Decimal.positional_of_nonneg h
    refine ⟨.intLiteral, by decide, .integer, .decimal hne hdigits, ?_⟩
    have hself := Decimal.toBinary64_shortest rank false
    rw [Decimal.toBinary64_of_nonneg h] at hself
    simp only [Numeral.read?, Numeral.whole?_eq hne (Numeral.isDigits_ten hdigits),
      Numeral.positional_ten hdigits, hvalue, hself, Decimal.shortest_lt_iff h, Binary64.isBelow,
      decide_eq_true_eq]
  · obtain ⟨whole, fraction, htext, hleft, hright, hwhole, hfraction, _⟩ :=
      Decimal.positional_of_neg (Int.not_le.mp h)
    refine ⟨.floatLiteral, by decide, .float, ?_, ?_⟩
    · rw [htext]
      exact .fractional hleft hright hwhole hfraction
    · have hbelow : (Binary64.finite false rank).isBelow 0x10000000000000000 := by
        rw [Binary64.isBelow, decide_eq_true_eq]
        apply Nat.lt_of_not_le
        intro hle
        apply h
        apply Decimal.exponent_shortest_nonneg
        apply Binary64.unitsPerOne_dvd_units
        exact Nat.le_trans (Nat.mul_le_mul_right _ (by decide)) hle
      rw [if_pos hbelow]
      exact Numeral.fractional?_shortest rank

section Calculation

variable {source text : String} {reading : Option (Binary64 × NumericType)}

/-- What is calculated from a number alone. -/
theorem calculate_of_number (h : Expr.parse source = Expr.ofNumber text 1 reading) :
    calculate source =
      reading.elim (.error (.malformed (.invalidNumber text 1))) fun result => .ok result.1 := by
  rw [calculate, h]
  cases reading <;> rfl

/-- What is calculated from a number behind a minus sign. -/
theorem calculate_of_negated_number
    (h : Expr.parse source = (Expr.ofNumber text 1 reading).map (.negation · 1)) :
    calculate source =
      reading.elim (.error (.malformed (.invalidNumber text 1))) fun result => .ok (-result.1) := by
  rw [calculate, h]
  cases reading <;> rfl

end Calculation

/-- A finite number that is printed and typed in again is the result, bit by bit, if its magnitude
is less than 2 ^ 64; and otherwise it is its digits that are reported. -/
theorem calculate_text (negative : Bool) (rank : Fin rankCount) :
    calculate (Binary64.finite negative rank).text =
      if (Binary64.finite negative rank).isBelow 0x10000000000000000 then
        .ok (.finite negative rank)
      else .error (.malformed (.invalidNumber (Binary64.finite negative rank).abs.text 1)) := by
  obtain ⟨kind, hmem, numericType, hmatch, hread⟩ := Numeral.exists_read?_shortest rank
  obtain ⟨l, hkind, htext⟩ : ∃ l : Lexeme, l.kind = .token kind ∧
      l.text = (Decimal.shortest rank).positional := ⟨⟨_, _⟩, rfl, rfl⟩
  rw [← htext] at hmatch hread
  have hplain : (Binary64.finite false rank).text = String.ofList l.text := by
    rw [Binary64.text, htext]
    exact String.empty_append
  have hminus : (Binary64.finite true rank).text = String.ofList ('-' :: l.text) := by
    apply String.toList_injective
    rw [Binary64.text, htext, String.toList_append, String.toList_ofList, String.toList_ofList]
    rfl
  cases negative
  · have hparse := (StandsAlone.of_text l).parse_eq hkind hmatch hmem
    rw [hread, ← hplain] at hparse
    rw [calculate_of_number hparse, apply_ite (Option.elim · _ _)]
    rfl
  · have hparse := Expr.parse_minus hkind hmatch hmem
    rw [hread, ← hplain, ← hminus] at hparse
    rw [calculate_of_negated_number hparse, apply_ite (Option.elim · _ _)]
    rfl

end Calculator
