import Calculator.Binary64.Integer
import Calculator.Decimal.Basic
import Calculator.NumericType
import Calculator.Token.Basic

/-!
The value of a number literal. Whole numbers in base ten, sixteen or two must be less than 2 ^ 64;
numbers with a point must not round to infinity.
-/

namespace Calculator

abbrev Token.Kind.numerals : List Token.Kind :=
  [.intLiteral, .floatLiteral, .hexLiteral, .binLiteral]

namespace Numeral

def digit? (c : Char) : Option Nat :=
  if c.isDigit then some (c.toNat - '0'.toNat)
  else if 'a' ≤ c ∧ c ≤ 'f' then some (c.toNat - 'a'.toNat + 10)
  else if 'A' ≤ c ∧ c ≤ 'F' then some (c.toNat - 'A'.toNat + 10)
  else none

/-- The number that digits of the given base write behind the digits of `n`. -/
def extend? (base : Nat) (n : Nat) : List Char → Option Nat
  | [] => some n
  | c :: rest =>
      match digit? c with
      | some d => if d < base then extend? base (base * n + d) rest else none
      | none => none

def natural? (base : Nat) (digits : List Char) : Option Nat :=
  if digits = [] then none else extend? base 0 digits

def whole? (base : Nat) (digits : List Char) : Option (Binary64 × NumericType) :=
  match natural? base digits with
  | some n => if n < 0x10000000000000000 then some (.ofNat n, .integer) else none
  | none => none

def fractional? (text : List Char) : Option (Binary64 × NumericType) :=
  let whole := text.takeWhile (· != '.')
  let fraction := (text.dropWhile (· != '.')).drop 1
  let value := (Decimal.ofDigits whole fraction).toBinary64 false
  if value.isFinite then some (value, .float) else none

/-- The value and the type of a literal of the given category, if it has a value. -/
def read? (kind : Token.Kind) (text : List Char) : Option (Binary64 × NumericType) :=
  match kind with
  | .intLiteral => whole? 10 text
  | .hexLiteral => whole? 16 (text.drop 2)
  | .binLiteral => whole? 2 (text.drop 2)
  | .floatLiteral => fractional? text
  | _ => none

end Numeral

end Calculator
