import Calculator.Binary64.Rounding

/-!
Magnitudes with finitely many decimal digits: their exact value in units, the 64-bit number
nearest to them, and their positional notation, which has no exponent.
-/

namespace Calculator

/-- The magnitude `digits * 10 ^ exponent`. -/
structure Decimal where
  digits : Nat
  exponent : Int
deriving DecidableEq

namespace Decimal

/-- The magnitude is `numerator / denominator` units of a 64-bit number. -/
def numerator (d : Decimal) : Nat :=
  d.digits * Nat.pow 10 d.exponent.toNat * Binary64.unitsPerOne

def denominator (d : Decimal) : Nat :=
  Nat.pow 10 (-d.exponent).toNat

/-- The rank of the nearest 64-bit magnitude, or a number not below `Binary64.rankCount` when the
nearest one lies beyond the last finite magnitude. -/
def nearestRank (d : Decimal) : Nat :=
  Binary64.nearestRank d.numerator d.denominator

def toBinary64 (d : Decimal) (negative : Bool) : Binary64 :=
  Binary64.nearest negative d.numerator d.denominator

def ofDigits (whole fraction : List Char) : Decimal where
  digits := Nat.ofDigitChars 10 (whole ++ fraction) 0
  exponent := -fraction.length

/-- At least `count` characters: the given ones behind as many zeros as are missing. -/
def padded (count : Nat) (text : List Char) : List Char :=
  List.replicate (count - text.length) '0' ++ text

/-- The positional notation. There is a point exactly when the exponent is negative, with at least
one digit before it and as many digits behind it as the exponent says. -/
def positional (d : Decimal) : List Char :=
  let text := Nat.toDigits 10 d.digits
  if 0 ≤ d.exponent then
    if d.digits = 0 then ['0'] else text ++ List.replicate d.exponent.toNat '0'
  else
    let places := (-d.exponent).toNat
    let all := padded (places + 1) text
    all.take (all.length - places) ++ '.' :: all.drop (all.length - places)

end Decimal

end Calculator
