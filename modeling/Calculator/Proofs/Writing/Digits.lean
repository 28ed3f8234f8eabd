import Calculator.Decimal.Shortest
import Calculator.Proofs.Binary64.Nearest
import Calculator.Proofs.Writing.Literal
import Mathlib.Data.List.TakeWhile

/-!
Decimals and the digits that write them. The positional notation of a decimal is read as the decimal
itself, with or without a point; so the shortest decimal of a magnitude is read as that magnitude.
-/

namespace Calculator

namespace Numeral

/-- Digits of base ten are worth what they are as characters. -/
theorem positional_ten {digits : List Char} (h : ∀ c ∈ digits, c.isDigit) (n : Nat) :
    positional 10 digits n = Nat.ofDigitChars 10 digits n := by
  induction digits generalizing n with
  | nil => rfl
  | cons c rest ih =>
      rw [Nat.ofDigitChars_cons, ← ih fun d hd => h d (List.mem_cons_of_mem c hd)]
      have hworth : digitWorth c = c.toNat - '0'.toNat := if_pos (h c List.mem_cons_self)
      rw [← hworth]
      rfl

end Numeral

namespace Decimal

/-- Digits on both sides of a point are rounded as a quotient by a power of ten. -/
theorem toBinary64_ofDigits (whole fraction : List Char) (negative : Bool) :
    (ofDigits whole fraction).toBinary64 negative =
      .nearest negative (Nat.ofDigitChars 10 (whole ++ fraction) 0 * Binary64.unitsPerOne)
        (Nat.pow 10 fraction.length) := by
  have hup : (-(fraction.length : Int)).toNat = 0 := by omega
  have hdown : (- -(fraction.length : Int)).toNat = fraction.length := by omega
  simp only [toBinary64, numerator, denominator, ofDigits, hup, hdown, Nat.pow_eq, Nat.pow_zero,
    Nat.mul_one]

/-- Zeros behind the point do not count. -/
theorem toBinary64_ofDigits_zeros (whole : List Char) (zeros : Nat) :
    (ofDigits whole (List.replicate zeros '0')).toBinary64 false =
      .ofNat (Nat.ofDigitChars 10 whole 0) := by
  have hpow : 0 < Nat.pow 10 zeros := Nat.pow_pos (by decide)
  have hscale := Binary64.nearest_mul_mul_right hpow false
    (Nat.ofDigitChars 10 whole 0 * Binary64.unitsPerOne) 1
  rw [Nat.one_mul, Nat.mul_right_comm, Nat.mul_comm _ (Nat.pow 10 zeros)] at hscale
  rw [toBinary64_ofDigits, Nat.ofDigitChars_append, Nat.ofDigitChars_replicate_zero,
    List.length_replicate]
  exact hscale

section Positional

variable {d : Decimal}

theorem toBinary64_of_nonneg (h : 0 ≤ d.exponent) :
    d.toBinary64 false = .ofNat (d.digits * Nat.pow 10 d.exponent.toNat) := by
  have hdown : (-d.exponent).toNat = 0 := by omega
  rw [toBinary64, denominator, hdown]
  rfl

/-- Without a point there is nothing but digits, at least one of them, and what they write is the
decimal. -/
theorem positional_of_nonneg (h : 0 ≤ d.exponent) :
    d.positional ≠ [] ∧ (∀ c ∈ d.positional, c.isDigit) ∧
      Nat.ofDigitChars 10 d.positional 0 = d.digits * Nat.pow 10 d.exponent.toNat := by
  unfold positional
  dsimp only
  rw [if_pos h]
  by_cases hzero : d.digits = 0
  · rw [if_pos hzero, hzero, Nat.zero_mul]
    exact ⟨List.cons_ne_nil _ _, List.all_eq_true.mp rfl, rfl⟩
  · rw [if_neg hzero]
    refine ⟨?_, ?_, ?_⟩
    · simp [Nat.toDigits_ne_nil]
    · intro c hc
      rcases List.mem_append.mp hc with hc | hc
      · exact Nat.isDigit_of_mem_toDigits (by decide) (by decide) hc
      · rw [List.eq_of_mem_replicate hc]
        rfl
    · rw [Nat.ofDigitChars_append, Nat.ofDigitChars_ten_toDigits,
        Nat.ofDigitChars_replicate_zero, Nat.mul_comm]
      rfl

theorem ofDigitChars_padded (count : Nat) (text : List Char) :
    Nat.ofDigitChars 10 (padded count text) 0 = Nat.ofDigitChars 10 text 0 := by
  rw [padded, Nat.ofDigitChars_append, Nat.ofDigitChars_replicate_zero, Nat.mul_zero]

theorem length_padded (count : Nat) (text : List Char) :
    (padded count text).length = max count text.length := by
  rw [padded, List.length_append, List.length_replicate]
  omega

theorem isDigit_of_mem_padded {count n : Nat} {c : Char}
    (h : c ∈ padded count (Nat.toDigits 10 n)) : c.isDigit := by
  rcases List.mem_append.mp h with h | h
  · rw [List.eq_of_mem_replicate h]
    rfl
  · exact Nat.isDigit_of_mem_toDigits (by decide) (by decide) h

/-- With a point there are digits on both sides of it, and what they write is the decimal. -/
theorem positional_of_neg (h : d.exponent < 0) :
    ∃ whole fraction, d.positional = whole ++ '.' :: fraction ∧ whole ≠ [] ∧ fraction ≠ [] ∧
      (∀ c ∈ whole, c.isDigit) ∧ (∀ c ∈ fraction, c.isDigit) ∧ ofDigits whole fraction = d := by
  obtain ⟨places, hplaces⟩ : ∃ n, n = (-d.exponent).toNat := ⟨_, rfl⟩
  obtain ⟨all, hall⟩ : ∃ l, l = padded (places + 1) (Nat.toDigits 10 d.digits) := ⟨_, rfl⟩
  have hlength : places < all.length := by
    rw [hall, length_padded]
    omega
  have hdigit : ∀ c ∈ all, c.isDigit := by
    intro c hc
    exact isDigit_of_mem_padded (hall ▸ hc)
  refine ⟨all.take (all.length - places), all.drop (all.length - places), ?_, ?_, ?_, ?_, ?_, ?_⟩
  · rw [hall, hplaces]
    exact if_neg (Int.not_le.mpr h)
  · rw [← List.length_pos_iff, List.length_take]
    omega
  · rw [← List.length_pos_iff, List.length_drop]
    omega
  · exact fun c hc => hdigit c (List.mem_of_mem_take hc)
  · exact fun c hc => hdigit c (List.mem_of_mem_drop hc)
  · obtain ⟨digits, exponent⟩ := d
    rw [ofDigits, List.take_append_drop, List.length_drop, hall, ofDigitChars_padded,
      Nat.ofDigitChars_ten_toDigits, ← hall]
    congr 1
    dsimp only at h hplaces
    omega

theorem exists_positional_eq_cons (d : Decimal) :
    ∃ c rest, d.positional = c :: rest ∧ c.isDigit := by
  by_cases h : 0 ≤ d.exponent
  · obtain ⟨hne, hdigits, _⟩ := positional_of_nonneg h
    obtain ⟨c, rest, htext⟩ := List.exists_cons_of_ne_nil hne
    exact ⟨c, rest, htext, hdigits c (htext ▸ List.mem_cons_self)⟩
  · obtain ⟨whole, fraction, htext, hne, _, hwhole, _⟩ := positional_of_neg (Int.not_le.mp h)
    obtain ⟨c, rest, rfl⟩ := List.exists_cons_of_ne_nil hne
    exact ⟨c, rest ++ '.' :: fraction, htext, hwhole c List.mem_cons_self⟩

theorem isDigit_or_eq_of_mem_positional {c : Char} (hc : c ∈ d.positional) :
    c.isDigit ∨ c = '.' := by
  by_cases h : 0 ≤ d.exponent
  · exact .inl ((positional_of_nonneg h).2.1 c hc)
  · obtain ⟨whole, fraction, htext, _, _, hwhole, hfraction, _⟩ :=
      positional_of_neg (Int.not_le.mp h)
    rw [htext, List.mem_append, List.mem_cons] at hc
    rcases hc with hc | hc | hc
    · exact .inl (hwhole c hc)
    · exact .inr hc
    · exact .inl (hfraction c hc)

end Positional

theorem toBinary64_shortest (rank : Fin Binary64.rankCount) (negative : Bool) :
    (shortest rank).toBinary64 negative = .finite negative rank := by
  have hrank : Binary64.nearestRank (shortest rank).numerator (shortest rank).denominator = rank :=
    nearestRank_shortest rank
  have hlt : Binary64.nearestRank (shortest rank).numerator (shortest rank).denominator <
      Binary64.rankCount := by
    rw [hrank]
    exact rank.isLt
  rw [toBinary64, Binary64.nearest, dif_pos hlt]
  exact congrArg (Binary64.finite negative) (Fin.ext hrank)

end Decimal

namespace Numeral

/-- The positional notation of a decimal is read as the decimal, also where it has no point. -/
theorem fractional?_positional (d : Decimal) :
    fractional? d.positional =
      if (d.toBinary64 false).isFinite then some (d.toBinary64 false, .float) else none := by
  by_cases h : 0 ≤ d.exponent
  · obtain ⟨_, hdigits, hvalue⟩ := Decimal.positional_of_nonneg h
    have hnone : ∀ c ∈ d.positional, (c != '.') = true :=
      fun c hc => bne_point_of_isDigit (hdigits c hc)
    have hvalue' : (Decimal.ofDigits d.positional []).toBinary64 false = d.toBinary64 false := by
      rw [Decimal.toBinary64_of_nonneg h, ← hvalue]
      exact Decimal.toBinary64_ofDigits_zeros d.positional 0
    simp only [fractional?, List.takeWhile_eq_self_iff.mpr hnone,
      List.dropWhile_eq_nil_iff.mpr hnone, List.drop_nil, hvalue']
  · obtain ⟨whole, fraction, htext, _, _, hwhole, _, hd⟩ :=
      Decimal.positional_of_neg (Int.not_le.mp h)
    rw [htext, fractional?_eq hwhole, hd]

/-- The digits of a finite number are read as its magnitude. -/
theorem fractional?_shortest (rank : Fin Binary64.rankCount) :
    fractional? (Decimal.shortest rank).positional = some (.finite false rank, .float) := by
  rw [fractional?_positional, Decimal.toBinary64_shortest]
  rfl

end Numeral

end Calculator
