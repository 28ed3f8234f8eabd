import Calculator.Decimal.Basic
import Calculator.NumericType

/-!
The named constants.
-/

namespace Calculator

inductive Constant where
  | pi
  | e
deriving DecidableEq

namespace Constant

def name : Constant → String
  | .pi => "pi"
  | .e => "e"

/-- The constant that a name stands for. The Greek letter is another name of `pi`. -/
def ofName? : String → Option Constant
  | "pi" => some .pi
  | "π" => some .pi
  | "e" => some .e
  | _ => none

def value : Constant → Binary64
  | .pi => (Decimal.mk 314159265358979323846264338327950288 (-35)).toBinary64 false
  | .e => (Decimal.mk 271828182845904523536028747135266250 (-35)).toBinary64 false

def numericType (_ : Constant) : NumericType :=
  .float

end Constant

end Calculator
