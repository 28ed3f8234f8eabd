import Calculator.NamedFunction
import Calculator.Operator

/-!
Expressions as trees. Every node carries the line of the source it comes from. A constant or a
function is an entry of its table, so a tree cannot hold one with a value, type or arity of its own.
-/

namespace Calculator

/-- An expression. The line of a node is that of its own token: the number, the name, the minus
sign or the operator. -/
inductive Expr where
  | literal (value : Binary64) (numericType : NumericType) (line : Nat)
  | constant (name : Constant) (line : Nat)
  | negation (operand : Expr) (line : Nat)
  | binary (operator : Operator) (lhs rhs : Expr) (line : Nat)
  | call (function : NamedFunction) (arguments : List Expr) (line : Nat)

namespace Expr

instance : Inhabited Expr := ⟨.constant .pi 1⟩

def line : Expr → Nat
  | .literal _ _ line => line
  | .constant _ line => line
  | .negation _ line => line
  | .binary _ _ _ line => line
  | .call _ _ line => line

/-- The type of an expression, whether or not its operators and functions accept their operands. -/
def numericType : Expr → NumericType
  | .literal _ numericType _ => numericType
  | .constant c _ => c.numericType
  | .negation operand _ => operand.numericType
  | .binary operator lhs rhs _ => operator.resultType lhs.numericType rhs.numericType
  | .call _ _ _ => .float

mutual

/-- Whether two expressions are equal in shape, names, types and lines, and their literals as
numbers: a `nan` literal makes an expression differ from itself, and the two zeros are equal. -/
def equals : Expr → Expr → Bool
  | .literal a s i, .literal b t j => a.equals b && s == t && i == j
  | .constant a i, .constant b j => a == b && i == j
  | .negation a i, .negation b j => a.equals b && i == j
  | .binary f a b i, .binary g c d j => f == g && a.equals c && b.equals d && i == j
  | .call f as i, .call g bs j => f == g && equalsAll as bs && i == j
  | _, _ => false

def equalsAll : List Expr → List Expr → Bool
  | [], [] => true
  | a :: as, b :: bs => a.equals b && equalsAll as bs
  | _, _ => false

end

end Expr

end Calculator
