/-!
The static type of an expression. Every value is a floating-point number; the type only says which
expressions the bitwise operators accept.
-/

namespace Calculator

inductive NumericType where
  | integer
  | float
deriving DecidableEq

namespace NumericType

/-- The type of two operands taken together: an integer only if both are. -/
def join : NumericType → NumericType → NumericType
  | .integer, .integer => .integer
  | _, _ => .float

def name : NumericType → String
  | .integer => "integer"
  | .float => "float"

theorem join_eq_integer_iff (a b : NumericType) :
    a.join b = .integer ↔ a = .integer ∧ b = .integer := by
  cases a <;> cases b <;> simp [join]

end NumericType

end Calculator
