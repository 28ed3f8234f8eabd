import Calculator.Proofs.Binary64.Order
import Calculator.Proofs.Binary64.Representable
import Calculator.Proofs.Writing.Digits
import Calculator.Proofs.Writing.SingleNumber

/-!
All ways of writing a number agree. A natural number may be written in base ten, sixteen or two, or
with nothing but zeros behind a point, and any number of zeros in front of it; below 2 ^ 64 each of
these is read as the nearest number. The limits are sharp: 2 ^ 64 has no integer literal, and a
fraction has no literal from the middle between the greatest finite number and 2 ^ 1024 on.
-/

namespace Calculator

open Binary64 (overflowBound unitsPerOne unitsPerOne_pos rankCount IsNearestRank)
open Numeral

/-- The lexeme writes a natural number without a point: in base ten, or in base sixteen or two
behind the mark of the base. Zeros in front are digits like others. -/
inductive Lexeme.Writes (n : Nat) : Lexeme → Prop where
  | decimal {digits : List Char} (nonempty : digits ≠ []) (all : ∀ c ∈ digits, c.isDigit)
      (value : positional 10 digits 0 = n) : Writes n ⟨.token .intLiteral, digits⟩
  | hex {digits : List Char} (nonempty : digits ≠ []) (all : ∀ c ∈ digits, HexDigit c)
      (value : positional 16 digits 0 = n) :
      Writes n ⟨.token .hexLiteral, '0' :: 'x' :: digits⟩
  | bin {digits : List Char} (nonempty : digits ≠ []) (all : ∀ c ∈ digits, BinDigit c)
      (value : positional 2 digits 0 = n) :
      Writes n ⟨.token .binLiteral, '0' :: 'b' :: digits⟩

/-- The lexeme has a point with digits on both sides, so many of them behind it, and writes the
quotient of `n` by that power of ten. -/
inductive Lexeme.WritesFraction (n : Nat) : (places : Nat) → Lexeme → Prop where
  | point {whole fraction : List Char} (left : whole ≠ []) (right : fraction ≠ [])
      (allLeft : ∀ c ∈ whole, c.isDigit) (allRight : ∀ c ∈ fraction, c.isDigit)
      (value : positional 10 (whole ++ fraction) 0 = n) :
      WritesFraction n fraction.length ⟨.token .floatLiteral, whole ++ '.' :: fraction⟩

/-- With zeros behind the point it is the number before the point that is written. -/
theorem Lexeme.writesFraction_zeros {n zeros : Nat} {whole : List Char} (left : whole ≠ [])
    (all : ∀ c ∈ whole, c.isDigit) (value : positional 10 whole 0 = n) (hzeros : zeros ≠ 0) :
    WritesFraction (n * Nat.pow 10 zeros) zeros
      ⟨.token .floatLiteral, whole ++ '.' :: List.replicate zeros '0'⟩ := by
  have hzero : ∀ c ∈ List.replicate zeros '0', c.isDigit := by
    intro c hc
    rw [List.eq_of_mem_replicate hc]
    rfl
  have hall : ∀ c ∈ whole ++ List.replicate zeros '0', c.isDigit := by
    intro c hc
    exact (List.mem_append.mp hc).elim (all c) (hzero c)
  have hvalue : positional 10 (whole ++ List.replicate zeros '0') 0 = n * Nat.pow 10 zeros := by
    rw [positional_ten hall, Nat.ofDigitChars_append, ← positional_ten all, value,
      Nat.ofDigitChars_replicate_zero, Nat.mul_comm]
    rfl
  have h := WritesFraction.point left (by simpa using hzeros) all hzero hvalue
  rwa [List.length_replicate] at h

inductive Lexeme.IsBareMark : Lexeme → Prop where
  | hex : IsBareMark ⟨.token .hexLiteral, ['0', 'x']⟩
  | bin : IsBareMark ⟨.token .binLiteral, ['0', 'b']⟩

section Reading

variable {line : Nat} {source : String} {l : Lexeme}

theorem Lexeme.Writes.exists_read? {n : Nat} (h : l.Writes n) :
    ∃ kind ∈ Token.Kind.numerals, l.kind = .token kind ∧ Matches (.token kind) l.text ∧
      read? kind l.text =
        if n < 0x10000000000000000 then some (.ofNat n, .integer) else none := by
  cases h with
  | decimal nonempty all value =>
      exact ⟨_, by decide, rfl, .decimal nonempty all,
        value ▸ whole?_eq nonempty (isDigits_ten all)⟩
  | hex nonempty all value =>
      exact ⟨_, by decide, rfl, .hex all, value ▸ whole?_eq nonempty (isDigits_sixteen all)⟩
  | bin nonempty all value =>
      exact ⟨_, by decide, rfl, .bin all, value ▸ whole?_eq nonempty (isDigits_two all)⟩

/-- A quotient below the bound is rounded to its nearest number, and no other is finite. -/
theorem nearest_fraction (n places : Nat) :
    ((Binary64.nearest false (n * unitsPerOne) (Nat.pow 10 places)).isFinite ↔
      n < overflowBound * Nat.pow 10 places) ∧
    (n < overflowBound * Nat.pow 10 places → ∃ rank : Fin rankCount,
      Binary64.nearest false (n * unitsPerOne) (Nat.pow 10 places) = .finite false rank ∧
        IsNearestRank (n * unitsPerOne) (Nat.pow 10 places) rank) := by
  have hpow : 0 < Nat.pow 10 places := Nat.pow_pos (by decide)
  have hrank := @Binary64.nearestRank_lt_rankCount_iff (n * unitsPerOne) _ hpow
  rw [Nat.mul_right_comm, Nat.mul_lt_mul_right unitsPerOne_pos] at hrank
  rw [← hrank, Binary64.nearest]
  split <;> rename_i h
  · exact ⟨⟨fun _ => h, fun _ => rfl⟩,
      fun _ => ⟨⟨_, h⟩, rfl, Binary64.nearestRank_isNearestRank _ hpow⟩⟩
  · exact ⟨⟨fun hfinite => absurd hfinite (by decide), fun hlt => absurd hlt h⟩,
      fun hlt => absurd hlt h⟩

theorem Lexeme.WritesFraction.read? {n places : Nat} (h : l.WritesFraction n places) :
    l.kind = .token .floatLiteral ∧ Matches (.token .floatLiteral) l.text ∧
      Numeral.read? .floatLiteral l.text =
        if n < overflowBound * Nat.pow 10 places then
          some (.nearest false (n * unitsPerOne) (Nat.pow 10 places), .float)
        else none := by
  cases h with
  | @point whole fraction left right allLeft allRight value =>
      have hall : ∀ c ∈ whole ++ fraction, c.isDigit := by
        intro c hc
        exact (List.mem_append.mp hc).elim (allLeft c) (allRight c)
      have hnearest : (Decimal.ofDigits whole fraction).toBinary64 false =
          .nearest false (n * unitsPerOne) (Nat.pow 10 fraction.length) := by
        rw [Decimal.toBinary64_ofDigits, ← positional_ten hall, value]
      refine ⟨rfl, .fractional left right allLeft allRight, ?_⟩
      simp only [Numeral.read?, fractional?_eq allLeft, hnearest, (nearest_fraction _ _).1]

section Alone

variable (alone : StandsAlone l line source) {n places : Nat}

include alone

theorem Lexeme.Writes.parse_eq (h : l.Writes n) :
    Expr.parse source = if n < 0x10000000000000000 then .ok (.literal (.ofNat n) .integer line)
      else .error (.invalidNumber (String.ofList l.text) line) := by
  obtain ⟨kind, hmem, hkind, hmatch, hread⟩ := h.exists_read?
  rw [alone.parse_eq hkind hmatch hmem, hread, apply_ite (Expr.ofNumber _ _)]
  rfl

theorem Lexeme.IsBareMark.parse_eq (h : l.IsBareMark) :
    Expr.parse source = .error (.invalidNumber (String.ofList l.text) line) := by
  cases h with
  | hex => exact alone.parse_eq rfl (.hex (by simp)) (by decide)
  | bin => exact alone.parse_eq rfl (.bin (by simp)) (by decide)

theorem Lexeme.WritesFraction.parse_eq (h : l.WritesFraction n places) :
    Expr.parse source = if n < overflowBound * Nat.pow 10 places then
        .ok (.literal (.nearest false (n * unitsPerOne) (Nat.pow 10 places)) .float line)
      else .error (.invalidNumber (String.ofList l.text) line) := by
  obtain ⟨hkind, hmatch, hread⟩ := h.read?
  rw [alone.parse_eq hkind hmatch (by decide), hread, apply_ite (Expr.ofNumber _ _)]
  rfl

/-- A number alone. In each of the three bases a natural number below 2 ^ 64 is read as the nearest
number, as it is with nothing but zeros behind a point; a greater one is reported, and so is the
mark of a base alone. A fraction is read as the nearest number, unless it is rounded past the last
one, and then it is reported. -/
theorem Expr.parse_of_standsAlone (n places : Nat) :
    (l.Writes n → n < 0x10000000000000000 →
      parse source = .ok (.literal (.ofNat n) .integer line)) ∧
    (l.WritesFraction (n * Nat.pow 10 places) places → n < 0x10000000000000000 →
      parse source = .ok (.literal (.ofNat n) .float line)) ∧
    (n < 0x10000000000000000 → (Binary64.ofNat n).IsNearest n) ∧
    (l.Writes n → 0x10000000000000000 ≤ n →
      parse source = .error (.invalidNumber (String.ofList l.text) line)) ∧
    (l.IsBareMark → parse source = .error (.invalidNumber (String.ofList l.text) line)) ∧
    (l.WritesFraction n places →
      (parse source = .error (.invalidNumber (String.ofList l.text) line) ↔
        overflowBound * Nat.pow 10 places ≤ n) ∧
      (n < overflowBound * Nat.pow 10 places → ∃ rank : Fin rankCount,
        parse source = .ok (.literal (.finite false rank) .float line) ∧
          IsNearestRank (n * unitsPerOne) (Nat.pow 10 places) rank)) := by
  refine ⟨fun h hlt => ?integer, fun h hlt => ?whole, Binary64.isNearest_ofNat,
    fun h hle => ?tooLarge, fun h => h.parse_eq alone, fun h => ?fraction⟩
  case integer => rw [h.parse_eq alone, if_pos hlt]
  case tooLarge => rw [h.parse_eq alone, if_neg (Nat.not_lt.mpr hle)]
  case whole =>
    have hpow : 0 < Nat.pow 10 places := Nat.pow_pos (by decide)
    have hscale := Binary64.nearest_mul_mul_right hpow false (n * unitsPerOne) 1
    rw [Nat.one_mul, Nat.mul_right_comm] at hscale
    have hbound : n * Nat.pow 10 places < overflowBound * Nat.pow 10 places :=
      Nat.mul_lt_mul_of_pos_right (Nat.lt_trans hlt (by decide)) hpow
    rw [h.parse_eq alone, if_pos hbound, hscale]
    rfl
  case fraction =>
    have hparse := h.parse_eq alone
    by_cases hlt : n < overflowBound * Nat.pow 10 places
    · obtain ⟨rank, hvalue, hnearest⟩ := (nearest_fraction n places).2 hlt
      rw [if_pos hlt, hvalue] at hparse
      refine ⟨⟨fun herror => ?_, fun hle => absurd hlt (Nat.not_lt.mpr hle)⟩,
        fun _ => ⟨rank, hparse, hnearest⟩⟩
      cases hparse.symm.trans herror
    · rw [if_neg hlt] at hparse
      exact ⟨⟨fun _ => Nat.le_of_not_lt hlt, fun _ => hparse⟩, fun h => absurd h hlt⟩

end Alone

end Reading

def greatestHex : Lexeme :=
  ⟨.token .hexLiteral, '0' :: 'x' :: '0' :: List.replicate 8 'f' ++ List.replicate 8 'F'⟩

def tooLargeBin : Lexeme :=
  ⟨.token .binLiteral, '0' :: 'b' :: '0' :: '1' :: List.replicate 64 '0'⟩

def tooLargeFraction : Lexeme :=
  ⟨.token .floatLiteral, Nat.toDigits 10 overflowBound ++ ['.', '0', '0']⟩

theorem greatestHex_writes : greatestHex.Writes 0xFFFFFFFFFFFFFFFF := by
  refine .hex (List.cons_ne_nil _ _) (fun c hc => (isHexDigit_iff c).mp ?_) rfl
  exact List.all_eq_true.mp rfl c hc

theorem tooLargeBin_writes : tooLargeBin.Writes 0x10000000000000000 := by
  refine .bin (List.cons_ne_nil _ _) ?_ (by decide +kernel)
  simp [BinDigit]

theorem tooLargeFraction_writes :
    tooLargeFraction.WritesFraction (overflowBound * Nat.pow 10 2) 2 := by
  have hdigit : ∀ c ∈ Nat.toDigits 10 overflowBound, c.isDigit :=
    fun c => Nat.isDigit_of_mem_toDigits (by decide) (by decide)
  refine Lexeme.writesFraction_zeros Nat.toDigits_ne_nil hdigit ?_ (by decide)
  rw [positional_ten hdigit, Nat.ofDigitChars_ten_toDigits]

theorem Expr.parse_of_standsAlone_at_the_limits :
    parse (String.ofList (['\n'] ++ (greatestHex.text ++ [' ']))) =
        .ok (.literal (.ofNat 0xFFFFFFFFFFFFFFFF) .integer 2) ∧
      parse (String.ofList tooLargeBin.text) =
        .error (.invalidNumber (String.ofList tooLargeBin.text) 1) ∧
      parse (String.ofList ['0', 'x']) = .error (.invalidNumber (String.ofList ['0', 'x']) 1) ∧
      parse (String.ofList ['0', '0', '.', '0']) = .ok (.literal (.ofNat 0) .float 1) ∧
      parse (String.ofList tooLargeFraction.text) =
        .error (.invalidNumber (String.ofList tooLargeFraction.text) 1) := by
  have hblank : FinalGap [' '] := .closed (.blank (.inl rfl) .nil)
  refine ⟨?_, ?_, ?_, ?_, ?_⟩
  · exact (parse_of_standsAlone (.between (.newline .nil) hblank) 0xFFFFFFFFFFFFFFFF 0).1
      greatestHex_writes (by decide)
  · exact (parse_of_standsAlone (.of_text tooLargeBin) 0x10000000000000000 0).2.2.2.1
      tooLargeBin_writes (Nat.le_refl _)
  · exact (parse_of_standsAlone (.of_text ⟨.token .hexLiteral, ['0', 'x']⟩) 0 0).2.2.2.2.1 .hex
  · exact (parse_of_standsAlone (.of_text ⟨.token .floatLiteral, ['0', '0', '.', '0']⟩) 0 1).2.1
      (@Lexeme.writesFraction_zeros 0 1 ['0', '0'] (by decide) (List.all_eq_true.mp rfl) rfl
        (by decide)) (by decide)
  · exact ((parse_of_standsAlone (.of_text tooLargeFraction)
      (overflowBound * Nat.pow 10 2) 2).2.2.2.2.2 tooLargeFraction_writes).1.mpr (Nat.le_refl _)

end Calculator
