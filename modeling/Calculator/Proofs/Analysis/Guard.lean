import Calculator.Expr.Evaluation
import Calculator.Proofs.Analysis.Violations

/-!
The analysis as the guard of the evaluation. A strict evaluation fails at calls with a wrong number
of arguments and at bitwise operators over floats; it succeeds on exactly the expressions that pass
the analysis, and there the evaluation never falls back on a number that is not in the expression.
-/

namespace Calculator

namespace NamedFunction

/-- The function on arguments that it asks for one after another, by their positions. -/
def applyAsking {m : Type → Type} [Monad m] (f : NamedFunction) (argument : Nat → m Binary64) :
    m Binary64 := do
  let x ← argument 0
  match f with
  | .pow => do
      let y ← argument 1
      return x.pow y
  | f => return f.apply [x]

/-- The value at a list of arguments, and the positions of the list that were read for it, in the
order of reading. As always, what is read beyond the end of the list is the quiet `nan`. -/
def applyRecording (f : NamedFunction) (arguments : List Binary64) : Binary64 × List Nat :=
  let argument (position : Nat) : StateM (List Nat) Binary64 := do
    modify (· ++ [position])
    return arguments.getD position .quietNan
  (f.applyAsking argument).run []

/-- A function reads as many arguments as its arity says, whether they are there or not, and no
others. -/
theorem applyRecording_eq (f : NamedFunction) (arguments : List Binary64) :
    f.applyRecording arguments = (f.apply arguments, List.range f.arity) := by
  cases f <;> cases arguments <;> rfl

end NamedFunction

namespace Expr

mutual

/-- The value of an expression, unless some call in it has not exactly as many arguments as its
function takes, or a bitwise operator is applied to an operand of type float. -/
def evaluateStrict? : Expr → Option Binary64
  | .literal value _ _ => some value
  | .constant c _ => some c.value
  | .negation operand _ => do
      let x ← operand.evaluateStrict?
      return -x
  | .binary op lhs rhs _ => do
      let x ← lhs.evaluateStrict?
      let y ← rhs.evaluateStrict?
      if (op = .bitAnd ∨ op = .bitOr) ∧ (lhs.numericType = .float ∨ rhs.numericType = .float) then
        none
      else return op.apply x y
  | .call f arguments _ => do
      let values ← evaluateAllStrict? arguments
      if arguments.length = f.arity then return f.apply values else none

def evaluateAllStrict? : List Expr → Option (List Binary64)
  | [] => some []
  | e :: rest => do
      let value ← e.evaluateStrict?
      let values ← evaluateAllStrict? rest
      return value :: values

end

mutual

/-- Strict evaluation gives the value of the expressions without violations and nothing else. -/
theorem evaluateStrict?_eq (e : Expr) :
    e.evaluateStrict? = if e.violations = [] then some e.evaluate else none := by
  match e with
  | .literal _ _ _ => simp [evaluateStrict?, violations, evaluate]
  | .constant _ _ => simp [evaluateStrict?, violations, evaluate]
  | .negation operand _ =>
      simp only [evaluateStrict?, violations, evaluate, operand.evaluateStrict?_eq]
      by_cases h : operand.violations = [] <;> simp [h]
  | .binary op lhs rhs line =>
      simp only [evaluateStrict?, violations, evaluate, lhs.evaluateStrict?_eq,
        rhs.evaluateStrict?_eq, ownViolation?]
      by_cases hown : (op = .bitAnd ∨ op = .bitOr) ∧
          (lhs.numericType = .float ∨ rhs.numericType = .float)
      · simp only [if_pos hown]
        by_cases hl : lhs.violations = [] <;> by_cases hr : rhs.violations = [] <;> simp [hl, hr]
      · simp only [if_neg hown]
        by_cases hl : lhs.violations = [] <;> by_cases hr : rhs.violations = [] <;> simp [hl, hr]
  | .call f arguments line =>
      simp only [evaluateStrict?, violations, evaluate, evaluateAllStrict?_eq arguments,
        ownViolation?]
      by_cases harity : arguments.length = f.arity <;>
        by_cases h : violationsAll arguments = [] <;> simp [harity, h]

theorem evaluateAllStrict?_eq (es : List Expr) :
    evaluateAllStrict? es = if violationsAll es = [] then some (evaluateAll es) else none := by
  match es with
  | [] => simp [evaluateAllStrict?, violationsAll, evaluateAll]
  | e :: rest =>
      simp only [evaluateAllStrict?, violationsAll, evaluateAll, e.evaluateStrict?_eq,
        evaluateAllStrict?_eq rest]
      by_cases h : e.violations = [] <;> by_cases hrest : violationsAll rest = [] <;>
        simp [h, hrest]

end

/-- The analysis is exactly the guard that the evaluation needs. It accepts the expressions on which
strict evaluation succeeds, and there strict evaluation gives the value. In an expression that is
accepted, every function reads exactly the arguments that its call has, so that none is missing and
none is dropped, and no operand of a bitwise operator is a float. -/
theorem analyze_eq_ok_iff_evaluateStrict? (e : Expr) :
    ((∃ type, e.analyze = .ok type) ↔ ∃ value, e.evaluateStrict? = some value) ∧
    (∀ value, e.evaluateStrict? = some value → value = e.evaluate) ∧
    ∀ type, e.analyze = .ok type →
      (∀ f arguments line, Occurs (.call f arguments line) e →
        f.applyRecording (evaluateAll arguments) =
          ((call f arguments line).evaluate, List.range arguments.length)) ∧
      ∀ op lhs rhs line, op = .bitAnd ∨ op = .bitOr → Occurs (.binary op lhs rhs line) e →
        lhs.numericType = .integer ∧ rhs.numericType = .integer := by
  rw [exists_analyze_eq_ok_iff, evaluateStrict?_eq]
  refine ⟨?_, ?_, ?_⟩
  · by_cases h : e.violations = [] <;> simp [h]
  · intro value h
    split at h
    · exact (Option.some.inj h).symm
    · cases h
  · intro type htype
    have hnone := (violations_eq_nil_iff e).mp ((exists_analyze_eq_ok_iff e).mp ⟨type, htype⟩)
    constructor
    · intro f arguments line hcall
      have harity : arguments.length = f.arity := by simpa [ownViolation?] using hnone _ hcall
      rw [NamedFunction.applyRecording_eq, harity, evaluate]
    · intro op lhs rhs line hop hbinary
      exact (ownViolation?_binary_eq_none_iff op lhs rhs line).mp (hnone _ hbinary) hop

end Expr

end Calculator
