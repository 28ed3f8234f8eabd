import Calculator.Diagnostic
import Calculator.Expr.Basic

/-!
Checking an expression before it is evaluated. Operands are checked before the operator that joins
them, but the number of arguments of a call before the arguments themselves; the first violation is
reported.
-/

namespace Calculator

def Operator.check (op : Operator) (lhs rhs : NumericType) (line : Nat) :
    Except AnalysisError Unit :=
  if op.accepts lhs rhs then .ok () else .error (.illegalOperands op line)

def NamedFunction.checkArity (f : NamedFunction) (found line : Nat) :
    Except AnalysisError Unit :=
  if found = f.arity then .ok () else .error (.arityMismatch f found line)

namespace Expr

mutual

/-- Checks an expression and gives its type. -/
def analyze : Expr → Except AnalysisError NumericType
  | .literal _ numericType _ => .ok numericType
  | .constant c _ => .ok c.numericType
  | .negation operand _ => operand.analyze
  | .binary op lhs rhs line => do
      let left ← lhs.analyze
      let right ← rhs.analyze
      op.check left right line
      return op.resultType left right
  | .call f arguments line => do
      f.checkArity arguments.length line
      analyzeAll arguments
      return .float

def analyzeAll : List Expr → Except AnalysisError Unit
  | [] => .ok ()
  | e :: rest => do
      let _ ← e.analyze
      analyzeAll rest

end

end Expr

end Calculator
