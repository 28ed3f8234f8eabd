import Calculator.Expr.Basic

/-!
The value of an expression. Every expression has one, whether or not it passes the analysis.
-/

namespace Calculator.Expr

mutual

def evaluate : Expr → Binary64
  | .literal value _ _ => value
  | .constant c _ => c.value
  | .negation operand _ => -operand.evaluate
  | .binary op lhs rhs _ => op.apply lhs.evaluate rhs.evaluate
  | .call f arguments _ => f.apply (evaluateAll arguments)

def evaluateAll : List Expr → List Binary64
  | [] => []
  | e :: rest => e.evaluate :: evaluateAll rest

end

theorem evaluateAll_eq_map (es : List Expr) : evaluateAll es = es.map evaluate := by
  induction es with
  | nil => simp [evaluateAll]
  | cons e rest ih => simp [evaluateAll, ih]

end Calculator.Expr
