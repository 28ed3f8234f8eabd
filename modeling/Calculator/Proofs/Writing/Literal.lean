import Calculator.Numeral
import Calculator.Proofs.Scanning.Pattern

/-!
Number literals by what they write: the digits of a natural number below 2 ^ 64 in base ten,
sixteen or two, or the digits of a decimal fraction that does not round to infinity. Each of them
is read as the number nearest to what it writes.
-/

namespace Calculator

namespace Numeral

def digitWorth (c : Char) : Nat :=
  if c.isDigit then c.toNat - 48
  else if 'a' ≤ c ∧ c ≤ 'f' then c.toNat - 87
  else c.toNat - 55

/-- The number that digits write by their places, behind the digits of `n`. -/
def positional (base : Nat) (digits : List Char) (n : Nat) : Nat :=
  digits.foldl (fun n c => base * n + digitWorth c) n

theorem digit?_of_hexDigit {c : Char} (h : HexDigit c) : digit? c = some (digitWorth c) := by
  unfold digit? digitWorth
  by_cases hdigit : c.isDigit
  · simp only [hdigit, if_true]
    rfl
  · by_cases hlower : 'a' ≤ c ∧ c ≤ 'f'
    · have hle : 97 ≤ c.toNat := hlower.1
      simp only [hdigit, hlower, Bool.false_eq_true, if_false, if_true, and_self]
      exact congrArg some (show c.toNat - 97 + 10 = c.toNat - 87 by omega)
    · have hupper : 'A' ≤ c ∧ c ≤ 'F' := (h.resolve_left hdigit).resolve_left hlower
      have hle : 65 ≤ c.toNat := hupper.1
      simp only [hdigit, hlower, hupper, Bool.false_eq_true, if_false, if_true, and_self]
      exact congrArg some (show c.toNat - 65 + 10 = c.toNat - 55 by omega)

theorem digitWorth_lt_of_isDigit {c : Char} (h : c.isDigit) : digitWorth c < 10 := by
  have hrange := toNat_of_isDigit h
  rw [digitWorth, if_pos h]
  omega

theorem digitWorth_lt_of_hexDigit {c : Char} (h : HexDigit c) : digitWorth c < 16 := by
  unfold digitWorth
  split
  · rename_i hdigit
    have hrange := toNat_of_isDigit hdigit
    omega
  · rename_i hdigit
    split
    · rename_i hlower
      have hle : c.toNat ≤ 102 := hlower.2
      omega
    · rename_i hlower
      have hupper : 'A' ≤ c ∧ c ≤ 'F' := (h.resolve_left hdigit).resolve_left hlower
      have hle : c.toNat ≤ 70 := hupper.2
      omega

def IsDigits (base : Nat) (digits : List Char) : Prop :=
  ∀ c ∈ digits, HexDigit c ∧ digitWorth c < base

theorem isDigits_ten {digits : List Char} (h : ∀ c ∈ digits, c.isDigit) : IsDigits 10 digits :=
  fun c hc => ⟨.inl (h c hc), digitWorth_lt_of_isDigit (h c hc)⟩

theorem isDigits_sixteen {digits : List Char} (h : ∀ c ∈ digits, HexDigit c) :
    IsDigits 16 digits :=
  fun c hc => ⟨h c hc, digitWorth_lt_of_hexDigit (h c hc)⟩

theorem isDigits_two {digits : List Char} (h : ∀ c ∈ digits, BinDigit c) : IsDigits 2 digits := by
  intro c hc
  rcases h c hc with rfl | rfl
  · exact ⟨.inl rfl, by decide⟩
  · exact ⟨.inl rfl, by decide⟩

theorem extend?_of_isDigits {base : Nat} {digits : List Char} (h : IsDigits base digits)
    (n : Nat) : extend? base n digits = some (positional base digits n) := by
  induction digits generalizing n with
  | nil => rfl
  | cons c rest ih =>
      obtain ⟨hhex, hlt⟩ := h c List.mem_cons_self
      have hrest : IsDigits base rest := fun d hd => h d (List.mem_cons_of_mem c hd)
      simp only [extend?, digit?_of_hexDigit hhex, hlt, if_true]
      exact ih hrest _

/-- Digits are read as the number that they write, if it is small enough, and otherwise not at
all. -/
theorem whole?_eq {base : Nat} {digits : List Char} (hne : digits ≠ [])
    (h : IsDigits base digits) :
    whole? base digits = if positional base digits 0 < 0x10000000000000000 then
      some (.ofNat (positional base digits 0), .integer) else none := by
  simp only [whole?, natural?, hne, if_false, extend?_of_isDigits h]

theorem bne_point_of_isDigit {c : Char} (h : c.isDigit) : (c != '.') = true := by
  rw [bne_iff_ne]
  rintro rfl
  cases h

/-- Digits on both sides of a point are read as the fraction that they write, unless it is rounded
to infinity. -/
theorem fractional?_eq {whole fraction : List Char} (h : ∀ c ∈ whole, c.isDigit) :
    fractional? (whole ++ '.' :: fraction) =
      if ((Decimal.ofDigits whole fraction).toBinary64 false).isFinite then
        some ((Decimal.ofDigits whole fraction).toBinary64 false, .float) else none := by
  have hpoint : ∀ c ∈ whole, (c != '.') = true := fun c hc => bne_point_of_isDigit (h c hc)
  have htake : (whole ++ '.' :: fraction).takeWhile (· != '.') = whole := by
    rw [List.takeWhile_append_of_pos hpoint]
    exact List.append_nil whole
  have hdrop : (whole ++ '.' :: fraction).dropWhile (· != '.') = '.' :: fraction := by
    rw [List.dropWhile_append_of_pos hpoint]
    rfl
  simp only [fractional?, htake, hdrop, List.drop_one, List.tail_cons]

end Numeral

open Numeral

/-- A number literal together with what makes it one. -/
inductive Literal where
  | decimal (digits : List Char) (nonempty : digits ≠ []) (all : ∀ c ∈ digits, c.isDigit)
      (small : positional 10 digits 0 < 0x10000000000000000)
  | hex (digits : List Char) (nonempty : digits ≠ []) (all : ∀ c ∈ digits, HexDigit c)
      (small : positional 16 digits 0 < 0x10000000000000000)
  | bin (digits : List Char) (nonempty : digits ≠ []) (all : ∀ c ∈ digits, BinDigit c)
      (small : positional 2 digits 0 < 0x10000000000000000)
  | fractional (whole fraction : List Char) (left : whole ≠ []) (right : fraction ≠ [])
      (allLeft : ∀ c ∈ whole, c.isDigit) (allRight : ∀ c ∈ fraction, c.isDigit)
      (finite : ((Decimal.ofDigits whole fraction).toBinary64 false).isFinite)

namespace Literal

def kind : Literal → Token.Kind
  | .decimal .. => .intLiteral
  | .hex .. => .hexLiteral
  | .bin .. => .binLiteral
  | .fractional .. => .floatLiteral

def text : Literal → List Char
  | .decimal digits .. => digits
  | .hex digits .. => '0' :: 'x' :: digits
  | .bin digits .. => '0' :: 'b' :: digits
  | .fractional whole fraction .. => whole ++ '.' :: fraction

def value : Literal → Binary64
  | .decimal digits .. => .ofNat (positional 10 digits 0)
  | .hex digits .. => .ofNat (positional 16 digits 0)
  | .bin digits .. => .ofNat (positional 2 digits 0)
  | .fractional whole fraction .. => (Decimal.ofDigits whole fraction).toBinary64 false

def numericType : Literal → NumericType
  | .fractional .. => .float
  | _ => .integer

theorem matches_text (l : Literal) : Matches (.token l.kind) l.text := by
  cases l with
  | decimal digits nonempty all _ => exact .decimal nonempty all
  | hex digits _ all _ => exact .hex all
  | bin digits _ all _ => exact .bin all
  | fractional whole fraction left right allLeft allRight _ =>
      exact .fractional left right allLeft allRight

/-- Every literal is read as its value. -/
theorem read?_text (l : Literal) : read? l.kind l.text = some (l.value, l.numericType) := by
  cases l with
  | decimal digits nonempty all small =>
      exact (whole?_eq nonempty (isDigits_ten all)).trans (if_pos small)
  | hex digits nonempty all small =>
      exact (whole?_eq nonempty (isDigits_sixteen all)).trans (if_pos small)
  | bin digits nonempty all small =>
      exact (whole?_eq nonempty (isDigits_two all)).trans (if_pos small)
  | fractional whole fraction _ _ allLeft _ finite =>
      exact (fractional?_eq allLeft).trans (if_pos finite)

theorem kind_mem (l : Literal) :
    l.kind ∈ [Token.Kind.intLiteral, .floatLiteral, .hexLiteral, .binLiteral] := by
  cases l <;> simp [kind]

end Literal

end Calculator
