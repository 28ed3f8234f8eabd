import Calculator.Binary64.Text
import Calculator.Expr.Basic

/-!
The outline of an expression: its nodes from top to bottom, each before the nodes below it and
operands and arguments in source order, with one line of text per node.
-/

namespace Calculator.Expr

def label : Expr → String
  | .literal value _ _ => value.text
  | .constant c _ => c.name
  | .negation _ _ => "-"
  | .binary op _ _ _ => op.symbol
  | .call f _ _ => f.name

mutual

/-- All subexpressions, each with its depth below the top and before those it contains. -/
def outline (depth : Nat) : Expr → List (Nat × Expr)
  | .literal value numericType line => [(depth, .literal value numericType line)]
  | .constant c line => [(depth, .constant c line)]
  | .negation operand line =>
      (depth, .negation operand line) :: operand.outline (depth + 1)
  | .binary op lhs rhs line =>
      (depth, .binary op lhs rhs line) :: (lhs.outline (depth + 1) ++ rhs.outline (depth + 1))
  | .call f arguments line =>
      (depth, .call f arguments line) :: outlineAll (depth + 1) arguments

def outlineAll (depth : Nat) : List Expr → List (Nat × Expr)
  | [] => []
  | e :: rest => e.outline depth ++ outlineAll depth rest

end

/-- The line for a node: one bar for each node above it, then its label. -/
def outlineLine (depth : Nat) (e : Expr) : String :=
  String.join (List.replicate depth "| ") ++ e.label ++ "\n"

def outlineText (e : Expr) : String :=
  String.join ((e.outline 0).map fun (depth, node) => outlineLine depth node)

theorem outlineAll_eq_flatMap (depth : Nat) (es : List Expr) :
    outlineAll depth es = es.flatMap (outline depth) := by
  induction es with
  | nil => simp [outlineAll]
  | cons e rest ih => simp [outlineAll, ih]

end Calculator.Expr
