import Calculator.Binary64.Rounding

/-!
Whole numbers and floating-point numbers: the nearest number to a whole number, the whole part of
a number as a 64-bit integer, and rounding to a whole number.
-/

namespace Calculator.Binary64

/-- The number nearest to a natural number, ties to even. -/
def ofNat (n : Nat) : Binary64 :=
  nearest false (n * unitsPerOne) 1

def ofInt (i : Int) : Binary64 :=
  nearest (i < 0) (i.natAbs * unitsPerOne) 1

def ofInt64 (i : Int64) : Binary64 :=
  ofInt i.toInt

def wholePart (negative : Bool) (rank : Nat) : Int :=
  (signedUnits negative rank).tdiv unitsPerOne

/-- The number cut off toward zero as a 64-bit integer. What lies outside the range of 64-bit
integers becomes the nearest end of it, and `nan` becomes zero. -/
def toInt64 : Binary64 → Int64
  | .nan _ => 0
  | .infinity negative => if negative then Int64.minValue else Int64.maxValue
  | .finite negative rank => Int64.ofIntClamp (wholePart negative rank)

/-- Replaces the magnitude of a finite number by a whole number and keeps the sign, also of zero. -/
private def withWhole (whole : Bool → Nat → Nat) : Binary64 → Binary64
  | .nan _ => quietNan
  | .infinity negative => .infinity negative
  | .finite negative rank => nearest negative (whole negative (units rank) * unitsPerOne) 1

def floor : Binary64 → Binary64 :=
  withWhole fun negative n => (if negative then n + (unitsPerOne - 1) else n) / unitsPerOne

def ceil : Binary64 → Binary64 :=
  withWhole fun negative n => (if negative then n else n + (unitsPerOne - 1)) / unitsPerOne

/-- The nearest whole number; a half goes away from zero. -/
def round : Binary64 → Binary64 :=
  withWhole fun _ n => (n + unitsPerOne / 2) / unitsPerOne

end Calculator.Binary64
