import Calculator.Expr.Analysis
import Calculator.Expr.Evaluation
import Calculator.Parser.Expression

/-!
From source text to value.
-/

namespace Calculator

/-- The value of the expression that a text writes, once it has passed the analysis. -/
def calculate (source : String) : Except Diagnostic Binary64 :=
  match Expr.parse source with
  | .error e => .error (.malformed e)
  | .ok expr =>
      match expr.analyze with
      | .error e => .error (.illTyped e)
      | .ok _ => .ok expr.evaluate

section Inversion

variable {source : String}

theorem exists_of_calculate_eq_ok {value : Binary64} (h : calculate source = .ok value) :
    ∃ e type, Expr.parse source = .ok e ∧ e.analyze = .ok type ∧ value = e.evaluate := by
  unfold calculate at h
  cases hparse : Expr.parse source with
  | error e =>
      rw [hparse] at h
      cases h
  | ok e =>
      rw [hparse] at h
      cases hanalysis : e.analyze with
      | error problem =>
          simp only [hanalysis] at h
          cases h
      | ok type =>
          simp only [hanalysis] at h
          cases h
          exact ⟨e, type, rfl, hanalysis, rfl⟩

/-- What is wrong with a text is found by the parser, or in what is parsed. -/
theorem parse_or_analyze_of_calculate {problem : Diagnostic}
    (h : calculate source = .error problem) :
    (∃ e, problem = .malformed e ∧ Expr.parse source = .error e) ∨
      ∃ e tree, problem = .illTyped e ∧ Expr.parse source = .ok tree ∧ tree.analyze = .error e := by
  unfold calculate at h
  cases hparse : Expr.parse source with
  | error e =>
      rw [hparse] at h
      cases h
      exact .inl ⟨e, rfl, rfl⟩
  | ok tree =>
      rw [hparse] at h
      cases hanalysis : tree.analyze with
      | ok type =>
          simp only [hanalysis] at h
          cases h
      | error e =>
          simp only [hanalysis] at h
          cases h
          exact .inr ⟨e, tree, rfl, rfl, hanalysis⟩

end Inversion

end Calculator
