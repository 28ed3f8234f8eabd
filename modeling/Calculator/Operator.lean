import Calculator.Binary64.Arithmetic
import Calculator.Binary64.Elementary
import Calculator.Binary64.Integer
import Calculator.NumericType
import Calculator.Token.Basic

/-!
The binary operators: how they are written, which operands they accept, the type of their result
and its value.
-/

namespace Calculator

inductive Operator where
  | add
  | sub
  | mul
  | div
  | mod
  | pow
  | bitAnd
  | bitOr
deriving DecidableEq

namespace Operator

def symbol : Operator → String
  | .add => "+"
  | .sub => "-"
  | .mul => "*"
  | .div => "/"
  | .mod => "%"
  | .pow => "^"
  | .bitAnd => "&"
  | .bitOr => "|"

def all : List Operator :=
  [.add, .sub, .mul, .div, .mod, .pow, .bitAnd, .bitOr]

def ofSymbol? (text : String) : Option Operator :=
  all.find? (·.symbol = text)

def ofKind? : Token.Kind → Option Operator
  | .plus => some .add
  | .minus => some .sub
  | .star => some .mul
  | .slash => some .div
  | .percent => some .mod
  | .caret => some .pow
  | .ampersand => some .bitAnd
  | .pipe => some .bitOr
  | _ => none

def isBitwise : Operator → Bool
  | .bitAnd | .bitOr => true
  | _ => false

/-- Whether the operator takes operands of the given types: the bitwise ones take integers only. -/
def accepts (op : Operator) (lhs rhs : NumericType) : Bool :=
  !op.isBitwise || (lhs == .integer && rhs == .integer)

/-- The type of the result. A quotient is never an integer. -/
def resultType (op : Operator) (lhs rhs : NumericType) : NumericType :=
  if op = .div then .float else lhs.join rhs

/-- The remainder of two numbers cut off to 64-bit integers. It has the sign of the dividend, and
there is none for a zero divisor or where the quotient is no 64-bit integer. -/
def remainder (a b : Int64) : Option Int64 :=
  if b = 0 || (a = Int64.minValue && b = -1) then none else some (a % b)

/-- The value of the result. `%`, `&` and `|` compute on 64-bit integers and round the result to
the nearest number. -/
def apply (op : Operator) (a b : Binary64) : Binary64 :=
  match op with
  | .add => a + b
  | .sub => a - b
  | .mul => a * b
  | .div => a / b
  | .mod => ((remainder a.toInt64 b.toInt64).map .ofInt64).getD .quietNan
  | .pow => a.pow b
  | .bitAnd => .ofInt64 (a.toInt64 &&& b.toInt64)
  | .bitOr => .ofInt64 (a.toInt64 ||| b.toInt64)

end Operator

end Calculator
