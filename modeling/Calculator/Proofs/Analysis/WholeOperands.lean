import Calculator.Expr.Evaluation
import Calculator.Proofs.Analysis.Nodes

/-!
The operands of the bitwise operators. The analysis makes sure that they are of type integer, and
an expression of type integer has a whole number as its value unless some remainder has no result,
some power is no whole number, or some whole numbers have a result that is too large.
-/

namespace Calculator

namespace NumericType

theorem resultType_eq_integer {op : Operator} {lhs rhs : NumericType}
    (h : op.resultType lhs rhs = .integer) : op ≠ .div ∧ lhs = .integer ∧ rhs = .integer := by
  unfold Operator.resultType at h
  split at h
  · cases h
  · rename_i hop
    obtain ⟨hl, hr⟩ := (join_eq_integer_iff lhs rhs).mp h
    exact ⟨hop, hl, hr⟩

end NumericType

namespace Operator

/-- Whether an operand that is not finite makes the result so: of the operators whose result can be
an integer, these are the ones that do not go by way of 64-bit integers, save for powers. -/
def carries : Operator → Bool
  | .add | .sub | .mul => true
  | _ => false

variable {op : Operator} {x y : Binary64}

theorem isWhole_apply (hop : op.carries) (hx : x.IsWhole) (hy : y.IsWhole) :
    (op.apply x y).IsWhole ∨ ∃ negative, op.apply x y = .infinity negative := by
  cases op with
  | add => exact hx.add hy
  | sub => exact hx.sub hy
  | mul => exact hx.mul hy
  | _ => cases hop

theorem isFinite_of_apply (hop : op.carries) (h : (op.apply x y).isFinite) :
    x.isFinite ∧ y.isFinite := by
  cases op with
  | add => exact Binary64.isFinite_of_add h
  | sub => exact Binary64.isFinite_of_sub h
  | mul => exact Binary64.isFinite_of_mul h
  | _ => cases hop

theorem isWhole_remainder {r : Int64} (h : remainder x.toInt64 y.toInt64 = some r) :
    (Operator.mod.apply x y).IsWhole := by
  rw [apply, h, Option.map_some, Option.getD_some]
  exact Binary64.isWhole_ofInt64 r

theorem isWhole_bitwise (hop : op.isBitwise) : (op.apply x y).IsWhole := by
  cases op with
  | bitAnd => exact Binary64.isWhole_ofInt64 _
  | bitOr => exact Binary64.isWhole_ofInt64 _
  | _ => cases hop

end Operator

namespace Expr

/-- The value of a node reaches the value of an expression through negations, sums, differences and
products only. -/
inductive Feeds (node : Expr) : Expr → Prop where
  | here : Feeds node node
  | negation {operand : Expr} {line : Nat} (through : Feeds node operand) :
      Feeds node (.negation operand line)
  | left {op : Operator} {lhs rhs : Expr} {line : Nat} (carries : op.carries)
      (through : Feeds node lhs) : Feeds node (.binary op lhs rhs line)
  | right {op : Operator} {lhs rhs : Expr} {line : Nat} (carries : op.carries)
      (through : Feeds node rhs) : Feeds node (.binary op lhs rhs line)

/-- A node of type integer that may not have a whole number as its value: a remainder without a
result, a power that is no whole number, and whole numbers whose result is too large. -/
inductive LosesWhole : Expr → Prop where
  | remainder {lhs rhs : Expr} {line : Nat}
      (noResult : Operator.remainder lhs.evaluate.toInt64 rhs.evaluate.toInt64 = none) :
      LosesWhole (.binary .mod lhs rhs line)
  | power {lhs rhs : Expr} {line : Nat} (notWhole : ¬(binary .pow lhs rhs line).evaluate.IsWhole) :
      LosesWhole (.binary .pow lhs rhs line)
  | overflow {op : Operator} {lhs rhs : Expr} {line : Nat} {negative : Bool} (carries : op.carries)
      (left : lhs.evaluate.IsWhole) (right : rhs.evaluate.IsWhole)
      (tooLarge : (binary op lhs rhs line).evaluate = .infinity negative) :
      LosesWhole (.binary op lhs rhs line)

/-- A number that is not finite stays so on its way up. -/
theorem Feeds.isFinite {node e : Expr} (h : Feeds node e) (hfinite : e.evaluate.isFinite) :
    node.evaluate.isFinite := by
  induction h with
  | here => exact hfinite
  | negation _ ih =>
      rw [evaluate] at hfinite
      exact ih (Binary64.isFinite_of_neg hfinite)
  | left carries _ ih =>
      rw [evaluate] at hfinite
      exact ih (Operator.isFinite_of_apply carries hfinite).1
  | right carries _ ih =>
      rw [evaluate] at hfinite
      exact ih (Operator.isFinite_of_apply carries hfinite).2

/-- The value of the expression is a whole number, or something that reaches it lost that. -/
def WholeUnlessLost (e : Expr) : Prop :=
  e.evaluate.IsWhole ∨ ∃ cause, Feeds cause e ∧ LosesWhole cause

section Step

variable {op : Operator} {operand lhs rhs : Expr} {line : Nat}

theorem WholeUnlessLost.negation (h : operand.WholeUnlessLost) :
    (negation operand line).WholeUnlessLost := by
  rcases h with hwhole | ⟨cause, hfeeds, hloses⟩
  · left
    rw [evaluate]
    exact hwhole.neg
  · exact Or.inr ⟨cause, .negation hfeeds, hloses⟩

theorem WholeUnlessLost.carried (hop : op.carries) (hl : lhs.WholeUnlessLost)
    (hr : rhs.WholeUnlessLost) : (binary op lhs rhs line).WholeUnlessLost := by
  rcases hl with hl | ⟨cause, hfeeds, hloses⟩
  · rcases hr with hr | ⟨cause, hfeeds, hloses⟩
    · have hevaluate : (binary op lhs rhs line).evaluate =
          op.apply lhs.evaluate rhs.evaluate := by
        rw [evaluate]
      rcases Operator.isWhole_apply hop hl hr with hwhole | ⟨negative, hinfinite⟩
      · left
        rw [hevaluate]
        exact hwhole
      · exact Or.inr ⟨_, .here, .overflow hop hl hr (hevaluate.trans hinfinite)⟩
    · exact Or.inr ⟨cause, .right hop hfeeds, hloses⟩
  · exact Or.inr ⟨cause, .left hop hfeeds, hloses⟩

theorem wholeUnlessLost_mod : (binary .mod lhs rhs line).WholeUnlessLost := by
  cases h : Operator.remainder lhs.evaluate.toInt64 rhs.evaluate.toInt64 with
  | none => exact Or.inr ⟨_, .here, .remainder h⟩
  | some r =>
      left
      rw [evaluate]
      exact Operator.isWhole_remainder h

theorem wholeUnlessLost_pow : (binary .pow lhs rhs line).WholeUnlessLost := by
  by_cases h : (binary .pow lhs rhs line).evaluate.IsWhole
  · exact Or.inl h
  · exact Or.inr ⟨_, .here, .power h⟩

theorem wholeUnlessLost_bitwise (hop : op.isBitwise) :
    (binary op lhs rhs line).WholeUnlessLost := by
  left
  rw [evaluate]
  exact Operator.isWhole_bitwise hop

end Step

/-- What the type integer says about the value of an expression whose literals are right. -/
theorem wholeUnlessLost_of_integer {e : Expr} (hliterals : e.HasWholeLiterals)
    (htype : e.numericType = .integer) : e.WholeUnlessLost := by
  match e with
  | .literal value numericType line =>
      rw [Expr.numericType] at htype
      subst htype
      left
      rw [evaluate]
      exact hliterals value line .here
  | .constant _ _ => cases htype
  | .negation operand _ =>
      have hoperand : operand.WholeUnlessLost :=
        wholeUnlessLost_of_integer (hliterals.of_occurs (.operand .here)) htype
      exact hoperand.negation
  | .binary op lhs rhs _ =>
      obtain ⟨hdiv, hl, hr⟩ := NumericType.resultType_eq_integer htype
      have hlhs : lhs.WholeUnlessLost :=
        wholeUnlessLost_of_integer (hliterals.of_occurs (.left .here)) hl
      have hrhs : rhs.WholeUnlessLost :=
        wholeUnlessLost_of_integer (hliterals.of_occurs (.right .here)) hr
      cases op with
      | add => exact .carried rfl hlhs hrhs
      | sub => exact .carried rfl hlhs hrhs
      | mul => exact .carried rfl hlhs hrhs
      | div => exact absurd rfl hdiv
      | mod => exact wholeUnlessLost_mod
      | pow => exact wholeUnlessLost_pow
      | bitAnd => exact wholeUnlessLost_bitwise rfl
      | bitOr => exact wholeUnlessLost_bitwise rfl
  | .call _ _ _ => cases htype

/-- The operands of every bitwise node of a text that passes the analysis are of type integer. Each
of them is a whole number, which is cut off to itself as far as it is a 64-bit integer, unless
something that reaches it lost that. What is not finite where it reaches an operand makes the
operand so. -/
theorem isInteger_of_bitwise {source : String} {e lhs rhs : Expr} {type : NumericType}
    {op : Operator} {line : Nat} (hparse : parse source = .ok e) (hanalyze : e.analyze = .ok type)
    (hbitwise : op.isBitwise) (hnode : Occurs (.binary op lhs rhs line) e) :
    ∀ operand ∈ [lhs, rhs], operand.numericType = .integer ∧
      ((∃ n, operand.evaluate.IsInteger n ∧ operand.evaluate.toInt64 = Int64.ofIntClamp n) ∨
        ∃ cause, Feeds cause operand ∧ LosesWhole cause) ∧
      ∀ node, Feeds node operand → node.evaluate.isFinite = false →
        operand.evaluate.isFinite = false := by
  intro operand hoperand
  obtain ⟨hl, hr⟩ := numericType_of_bitwise hbitwise hanalyze hnode
  have hside : operand = lhs ∨ operand = rhs := by simpa using hoperand
  obtain ⟨htype, hoccurs⟩ : operand.numericType = .integer ∧
      Occurs operand (.binary op lhs rhs line) := by
    rcases hside with rfl | rfl
    · exact ⟨hl, .left .here⟩
    · exact ⟨hr, .right .here⟩
  have hliterals := (hasWholeLiterals_of_parse hparse).of_occurs (hoccurs.trans hnode)
  refine ⟨htype, ?_, ?_⟩
  · rcases wholeUnlessLost_of_integer hliterals htype with ⟨n, hn⟩ | hlost
    · exact Or.inl ⟨n, hn, hn.toInt64_eq⟩
    · exact Or.inr hlost
  · intro node hfeeds hnode
    cases hfinite : operand.evaluate.isFinite with
    | false => rfl
    | true =>
        rw [hfeeds.isFinite hfinite] at hnode
        cases hnode

/-- The operands of a bitwise node at the top that passes the analysis, if there is one. -/
private def operands? (source : String) : Option (Operator × Expr × Expr × Nat) :=
  match parse source with
  | .ok (.binary op lhs rhs line) =>
      if op.isBitwise && (binary op lhs rhs line).analyze.isOk then some (op, lhs, rhs, line) else none
  | _ => none

private theorem of_operands? {source : String} {op : Operator} {lhs rhs : Expr} {line : Nat}
    (h : operands? source = some (op, lhs, rhs, line)) :
    parse source = .ok (.binary op lhs rhs line) ∧ op.isBitwise ∧
      ∃ type, (binary op lhs rhs line).analyze = .ok type := by
  unfold operands? at h
  split at h
  · rename_i op' lhs' rhs' line' hparse
    split at h
    · rename_i hcheck
      obtain ⟨hbitwise, hok⟩ := Bool.and_eq_true_iff.mp hcheck
      cases h
      cases hanalyze : (binary op lhs rhs line).analyze with
      | error found =>
          rw [hanalyze] at hok
          cases hok
      | ok type => exact ⟨hparse, hbitwise, type, rfl⟩
    · cases h
  · cases h

/-- The operands of a conjunction of a difference with a literal. -/
theorem isInteger_of_bitwise_difference :
    ∃ op lhs rhs line, parse "(2 - 7) & 12" = .ok (.binary op lhs rhs line) ∧ op.isBitwise ∧
      ∀ operand ∈ [lhs, rhs], operand.numericType = .integer ∧
        ((∃ n, operand.evaluate.IsInteger n ∧ operand.evaluate.toInt64 = Int64.ofIntClamp n) ∨
          ∃ cause, Feeds cause operand ∧ LosesWhole cause) ∧
        ∀ node, Feeds node operand → node.evaluate.isFinite = false →
          operand.evaluate.isFinite = false := by
  have hsome : (operands? "(2 - 7) & 12").isSome := by decide +kernel
  obtain ⟨⟨op, lhs, rhs, line⟩, hoperands⟩ := Option.isSome_iff_exists.mp hsome
  obtain ⟨hparse, hbitwise, type, hanalyze⟩ := of_operands? hoperands
  exact ⟨op, lhs, rhs, line, hparse, hbitwise,
    isInteger_of_bitwise hparse hanalyze hbitwise .here⟩

/-- Not every operand of a bitwise node that passes the analysis is a whole number: the remainder of
a division by zero is of type integer. -/
theorem not_isWhole_of_bitwise :
    ¬∀ (source : String) (e lhs rhs : Expr) (type : NumericType) (op : Operator) (line : Nat),
      parse source = .ok e → e.analyze = .ok type → op.isBitwise →
        Occurs (.binary op lhs rhs line) e → lhs.evaluate.IsWhole ∧ rhs.evaluate.IsWhole := by
  intro hall
  have hany : (operands? "(5 % 0) & 1").any (fun found => found.2.1.evaluate.isNan) := by
    decide +kernel
  obtain ⟨⟨op, lhs, rhs, line⟩, hoperands, hnan⟩ := (Option.any_eq_true _ _).mp hany
  obtain ⟨hparse, hbitwise, type, hanalyze⟩ := of_operands? hoperands
  obtain ⟨⟨n, negative, rank, hlhs, _⟩, _⟩ :=
    hall _ _ lhs rhs type op line hparse hanalyze hbitwise .here
  change lhs.evaluate.isNan at hnan
  rw [hlhs] at hnan
  cases hnan

end Expr

end Calculator
