import Calculator.Proofs.Analysis.Nodes

/-!
All that is wrong with an expression. The violations are listed in the order in which the nodes are
visited, the analysis reports the first of them, and which expressions have none can be read off
their nodes: calls have their arity, and nothing below a bitwise operator makes a float.
-/

namespace Calculator.Expr

/-- What is wrong with the topmost node, whatever stands below it. -/
def ownViolation? : Expr → Option AnalysisError
  | .binary op lhs rhs line =>
      if (op = .bitAnd ∨ op = .bitOr) ∧ (lhs.numericType = .float ∨ rhs.numericType = .float) then
        some (.illegalOperands op line)
      else none
  | .call f arguments line =>
      if arguments.length = f.arity then none else some (.arityMismatch f arguments.length line)
  | _ => none

mutual

/-- The violations in the order in which they are visited: a call comes before its arguments, and an
operator behind its operands. -/
def violations : Expr → List AnalysisError
  | .literal _ _ _ => []
  | .constant _ _ => []
  | .negation operand _ => operand.violations
  | .binary op lhs rhs line =>
      lhs.violations ++ rhs.violations ++ (ownViolation? (.binary op lhs rhs line)).toList
  | .call f arguments line =>
      (ownViolation? (.call f arguments line)).toList ++ violationsAll arguments

def violationsAll : List Expr → List AnalysisError
  | [] => []
  | e :: rest => e.violations ++ violationsAll rest

end

/-- Whether a node makes a float of every expression that it occurs in: leaves of type float do,
quotients and calls. -/
def MakesFloat : Expr → Prop
  | .literal _ numericType _ => numericType = .float
  | .constant c _ => c.numericType = .float
  | .negation _ _ => False
  | .binary op _ _ _ => op = .div
  | .call _ _ _ => True

def unlessViolated {α : Type} (violations : List AnalysisError) (result : α) :
    Except AnalysisError α :=
  match violations with
  | [] => .ok result
  | first :: _ => .error first

/-- Violations that are found one after another. -/
theorem unlessViolated_bind {α β : Type} {found others : List AnalysisError} {a : α} {b : β}
    {next : α → Except AnalysisError β} (h : next a = unlessViolated others b) :
    (unlessViolated found a >>= next) = unlessViolated (found ++ others) b := by
  cases found with
  | nil => exact h
  | cons first rest => rfl

theorem unlessViolated_bind_pure {α β : Type} (found : List AnalysisError) (a : α) (b : β) :
    (unlessViolated found a >>= fun _ => pure b) = unlessViolated found b := by
  cases found <;> rfl

theorem check_eq_unlessViolated (op : Operator) (lhs rhs : Expr) (line : Nat) :
    op.check lhs.numericType rhs.numericType line =
      unlessViolated (ownViolation? (.binary op lhs rhs line)).toList () := by
  cases op <;> cases hl : lhs.numericType <;> cases hr : rhs.numericType <;>
    simp [Operator.check, Operator.accepts, Operator.isBitwise, ownViolation?, unlessViolated, hl,
      hr]

theorem checkArity_eq_unlessViolated (f : NamedFunction) (arguments : List Expr) (line : Nat) :
    f.checkArity arguments.length line =
      unlessViolated (ownViolation? (.call f arguments line)).toList () := by
  by_cases h : arguments.length = f.arity <;>
    simp [NamedFunction.checkArity, ownViolation?, unlessViolated, h]

mutual

theorem analyze_eq_unlessViolated (e : Expr) :
    e.analyze = unlessViolated e.violations e.numericType := by
  match e with
  | .literal _ _ _ => simp [analyze, violations, unlessViolated, numericType]
  | .constant _ _ => simp [analyze, violations, unlessViolated, numericType]
  | .negation operand _ => simp [analyze, violations, numericType, operand.analyze_eq_unlessViolated]
  | .binary op lhs rhs line =>
      rw [analyze, violations, List.append_assoc, lhs.analyze_eq_unlessViolated,
        rhs.analyze_eq_unlessViolated, numericType]
      apply unlessViolated_bind
      apply unlessViolated_bind
      rw [check_eq_unlessViolated]
      exact unlessViolated_bind_pure _ _ _
  | .call f arguments line =>
      rw [analyze, violations, checkArity_eq_unlessViolated, analyzeAll_eq_unlessViolated arguments,
        numericType]
      apply unlessViolated_bind
      exact unlessViolated_bind_pure _ _ _

theorem analyzeAll_eq_unlessViolated (es : List Expr) :
    analyzeAll es = unlessViolated (violationsAll es) () := by
  match es with
  | [] => simp [analyzeAll, violationsAll, unlessViolated]
  | e :: rest =>
      rw [analyzeAll, violationsAll, e.analyze_eq_unlessViolated]
      exact unlessViolated_bind (analyzeAll_eq_unlessViolated rest)

end

theorem violationsAll_eq_flatMap (es : List Expr) : violationsAll es = es.flatMap violations := by
  induction es with
  | nil => simp [violationsAll]
  | cons e rest ih => simp [violationsAll, ih]

/-- The violations of an expression are those of its nodes. -/
theorem mem_violations_iff {v : AnalysisError} (e : Expr) :
    v ∈ e.violations ↔ ∃ node, Occurs node e ∧ node.ownViolation? = some v := by
  match e with
  | .literal _ _ _ => simp [violations, ownViolation?]
  | .constant _ _ => simp [violations, ownViolation?]
  | .negation operand _ => simp [violations, mem_violations_iff operand, ownViolation?]
  | .binary op lhs rhs line =>
      simp only [violations, List.mem_append, mem_violations_iff lhs, mem_violations_iff rhs,
        Option.mem_toList, occurs_binary_iff, or_and_right, exists_or, exists_eq_left]
      exact or_comm
  | .call f arguments line =>
      have harguments : v ∈ violationsAll arguments ↔
          ∃ node, (∃ e ∈ arguments, Occurs node e) ∧ node.ownViolation? = some v := by
        rw [violationsAll_eq_flatMap, List.mem_flatMap]
        constructor
        · rintro ⟨e, member, hv⟩
          obtain ⟨node, hnode, hown⟩ := (mem_violations_iff e).mp hv
          exact ⟨node, ⟨e, member, hnode⟩, hown⟩
        · rintro ⟨node, ⟨e, member, hnode⟩, hown⟩
          exact ⟨e, member, (mem_violations_iff e).mpr ⟨node, hnode, hown⟩⟩
      simp only [violations, List.mem_append, harguments, Option.mem_toList, occurs_call_iff,
        or_and_right, exists_or, exists_eq_left]

theorem violations_eq_nil_iff (e : Expr) :
    e.violations = [] ↔ ∀ node, Occurs node e → node.ownViolation? = none := by
  rw [List.eq_nil_iff_forall_not_mem]
  simp only [mem_violations_iff, not_exists, not_and, Option.eq_none_iff_forall_ne_some]
  exact ⟨fun h node hnode v => h v node hnode, fun h v node hnode => h node hnode v⟩

theorem exists_analyze_eq_ok_iff (e : Expr) :
    (∃ type, e.analyze = .ok type) ↔ e.violations = [] := by
  rw [analyze_eq_unlessViolated]
  cases e.violations <;> simp [unlessViolated]

/-- An expression is an integer exactly when nothing in it makes a float. -/
theorem numericType_eq_integer_iff (e : Expr) :
    e.numericType = .integer ↔ ∀ node, Occurs node e → ¬MakesFloat node := by
  match e with
  | .literal _ type _ => cases type <;> simp [numericType, MakesFloat]
  | .constant c _ => cases h : c.numericType <;> simp [numericType, MakesFloat, h]
  | .negation operand _ =>
      simp [numericType, MakesFloat, numericType_eq_integer_iff operand]
  | .binary op lhs rhs _ =>
      have hresult : op.resultType lhs.numericType rhs.numericType = .integer ↔
          op ≠ .div ∧ lhs.numericType = .integer ∧ rhs.numericType = .integer := by
        cases op <;> simp [Operator.resultType, NumericType.join_eq_integer_iff]
      simp only [numericType, hresult, numericType_eq_integer_iff lhs,
        numericType_eq_integer_iff rhs, occurs_binary_iff, or_imp, forall_and, forall_eq, MakesFloat,
        ne_eq]
  | .call _ _ _ => simp [numericType, MakesFloat]

theorem ownViolation?_binary_eq_none_iff (op : Operator) (lhs rhs : Expr) (line : Nat) :
    (binary op lhs rhs line).ownViolation? = none ↔
      (op = .bitAnd ∨ op = .bitOr → lhs.numericType = .integer ∧ rhs.numericType = .integer) := by
  cases hl : lhs.numericType <;> cases hr : rhs.numericType <;> simp [ownViolation?, hl, hr]

/-- The analysis reports exactly the first violation, and gives the type of an expression that has
none. An expression is an integer exactly when nothing in it makes a float; and it is accepted
exactly when every call in it has its arity and nothing below a bitwise operator makes a float. -/
theorem analyze_eq_first_violation (e : Expr) :
    (e.analyze =
      match e.violations with
      | [] => .ok e.numericType
      | first :: _ => .error first) ∧
    (e.numericType = .integer ↔ ∀ node, Occurs node e → ¬MakesFloat node) ∧
    ((∃ type, e.analyze = .ok type) ↔
      (∀ f arguments line, Occurs (.call f arguments line) e → arguments.length = f.arity) ∧
      ∀ op lhs rhs line, op = .bitAnd ∨ op = .bitOr → Occurs (.binary op lhs rhs line) e →
        ∀ node, Occurs node lhs ∨ Occurs node rhs → ¬MakesFloat node) := by
  refine ⟨e.analyze_eq_unlessViolated, e.numericType_eq_integer_iff, ?_⟩
  rw [exists_analyze_eq_ok_iff, violations_eq_nil_iff]
  constructor
  · intro h
    constructor
    · intro f arguments line hcall
      simpa [ownViolation?] using h _ hcall
    · intro op lhs rhs line hop hbinary node hnode
      obtain ⟨hl, hr⟩ := (ownViolation?_binary_eq_none_iff op lhs rhs line).mp (h _ hbinary) hop
      rcases hnode with hnode | hnode
      · exact (numericType_eq_integer_iff lhs).mp hl node hnode
      · exact (numericType_eq_integer_iff rhs).mp hr node hnode
  · rintro ⟨hcalls, hbitwise⟩ node hnode
    cases node with
    | literal _ _ _ => rfl
    | constant _ _ => rfl
    | negation _ _ => rfl
    | binary op lhs rhs line =>
        rw [ownViolation?_binary_eq_none_iff]
        intro hop
        have hbelow := hbitwise op lhs rhs line hop hnode
        constructor
        · exact (numericType_eq_integer_iff lhs).mpr fun node h => hbelow node (.inl h)
        · exact (numericType_eq_integer_iff rhs).mpr fun node h => hbelow node (.inr h)
    | call f arguments line => simp [ownViolation?, hcalls f arguments line hnode]

end Calculator.Expr
