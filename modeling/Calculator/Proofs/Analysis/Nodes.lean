import Calculator.Expr.Analysis
import Calculator.Proofs.Binary64.Whole
import Calculator.Proofs.Grammar.Acceptance

/-!
The nodes of an expression: what the analysis says about each of them, and which integer literals
there are in a tree that was read from a text.
-/

namespace Calculator

namespace Expr

/-- A node occurs in an expression: at its top or anywhere below. -/
inductive Occurs (node : Expr) : Expr → Prop where
  | here : Occurs node node
  | operand {operand : Expr} {line : Nat} (inside : Occurs node operand) :
      Occurs node (.negation operand line)
  | left {op : Operator} {lhs rhs : Expr} {line : Nat} (inside : Occurs node lhs) :
      Occurs node (.binary op lhs rhs line)
  | right {op : Operator} {lhs rhs : Expr} {line : Nat} (inside : Occurs node rhs) :
      Occurs node (.binary op lhs rhs line)
  | argument {f : NamedFunction} {arguments : List Expr} {e : Expr} {line : Nat}
      (member : e ∈ arguments) (inside : Occurs node e) : Occurs node (.call f arguments line)

theorem Occurs.trans {a b c : Expr} (inner : Occurs a b) (outer : Occurs b c) : Occurs a c := by
  induction outer with
  | here => exact inner
  | operand _ ih => exact .operand ih
  | left _ ih => exact .left ih
  | right _ ih => exact .right ih
  | argument member _ ih => exact .argument member ih

section Occurs

variable {node : Expr} {line : Nat}

@[simp] theorem occurs_literal_iff {value : Binary64} {numericType : NumericType} :
    Occurs node (.literal value numericType line) ↔ node = .literal value numericType line := by
  constructor
  · intro h
    cases h
    rfl
  · rintro rfl
    exact .here

@[simp] theorem occurs_constant_iff {c : Constant} :
    Occurs node (.constant c line) ↔ node = .constant c line := by
  constructor
  · intro h
    cases h
    rfl
  · rintro rfl
    exact .here

@[simp] theorem occurs_negation_iff {operand : Expr} :
    Occurs node (.negation operand line) ↔
      node = .negation operand line ∨ Occurs node operand := by
  constructor
  · intro h
    cases h with
    | here => exact .inl rfl
    | operand inside => exact .inr inside
  · rintro (rfl | inside)
    · exact .here
    · exact .operand inside

@[simp] theorem occurs_binary_iff {op : Operator} {lhs rhs : Expr} :
    Occurs node (.binary op lhs rhs line) ↔
      node = .binary op lhs rhs line ∨ Occurs node lhs ∨ Occurs node rhs := by
  constructor
  · intro h
    cases h with
    | here => exact .inl rfl
    | left inside => exact .inr (.inl inside)
    | right inside => exact .inr (.inr inside)
  · rintro (rfl | inside | inside)
    · exact .here
    · exact .left inside
    · exact .right inside

@[simp] theorem occurs_call_iff {f : NamedFunction} {arguments : List Expr} :
    Occurs node (.call f arguments line) ↔
      node = .call f arguments line ∨ ∃ e ∈ arguments, Occurs node e := by
  constructor
  · intro h
    cases h with
    | here => exact .inl rfl
    | argument member inside => exact .inr ⟨_, member, inside⟩
  · rintro (rfl | ⟨e, member, inside⟩)
    · exact .here
    · exact .argument member inside

end Occurs

theorem analyze_binary_eq_ok {op : Operator} {lhs rhs : Expr} {line : Nat} {type : NumericType}
    (h : (binary op lhs rhs line).analyze = .ok type) :
    ∃ left right, lhs.analyze = .ok left ∧ rhs.analyze = .ok right ∧
      op.accepts left right ∧ type = op.resultType left right := by
  rw [analyze] at h
  obtain ⟨left, hl, h⟩ := exists_of_bind_eq_ok h
  obtain ⟨right, hr, h⟩ := exists_of_bind_eq_ok h
  obtain ⟨_, hcheck, h⟩ := exists_of_bind_eq_ok h
  cases h
  refine ⟨left, right, hl, hr, ?_, rfl⟩
  unfold Operator.check at hcheck
  split at hcheck
  · assumption
  · cases hcheck

theorem analyzeAll_eq_ok {es : List Expr} (h : analyzeAll es = .ok ()) :
    ∀ e ∈ es, ∃ type, e.analyze = .ok type := by
  induction es with
  | nil => simp
  | cons e rest ih =>
      rw [analyzeAll] at h
      obtain ⟨type, he, h⟩ := exists_of_bind_eq_ok h
      intro e' hmem
      rcases List.mem_cons.mp hmem with rfl | hmem
      · exact ⟨type, he⟩
      · exact ih h e' hmem

theorem analyze_call_eq_ok {f : NamedFunction} {arguments : List Expr} {line : Nat}
    {type : NumericType} (h : (call f arguments line).analyze = .ok type) :
    arguments.length = f.arity ∧ (∀ e ∈ arguments, ∃ type, e.analyze = .ok type) ∧
      type = .float := by
  rw [analyze] at h
  obtain ⟨_, harity, h⟩ := exists_of_bind_eq_ok h
  obtain ⟨_, hall, h⟩ := exists_of_bind_eq_ok h
  cases h
  refine ⟨?_, analyzeAll_eq_ok hall, rfl⟩
  unfold NamedFunction.checkArity at harity
  split at harity
  · assumption
  · cases harity

/-- The type that the analysis gives is the type of the expression. -/
theorem eq_numericType_of_analyze {e : Expr} {type : NumericType} (h : e.analyze = .ok type) :
    type = e.numericType := by
  match e with
  | .literal _ _ _ =>
      cases h
      rfl
  | .constant _ _ =>
      cases h
      rfl
  | .negation operand _ =>
      rw [analyze] at h
      have hoperand : type = operand.numericType := eq_numericType_of_analyze h
      rw [hoperand, numericType]
  | .binary op lhs rhs _ =>
      obtain ⟨left, right, hl, hr, _, rfl⟩ := analyze_binary_eq_ok h
      rw [numericType, eq_numericType_of_analyze hl, eq_numericType_of_analyze hr]
  | .call _ _ _ => exact (analyze_call_eq_ok h).2.2

/-- Every node of an expression that passes the analysis passes it too. -/
theorem Occurs.exists_analyze {node e : Expr} (h : Occurs node e) {type : NumericType}
    (hanalyze : e.analyze = .ok type) : ∃ type', node.analyze = .ok type' := by
  induction h generalizing type with
  | here => exact ⟨type, hanalyze⟩
  | operand _ ih =>
      rw [analyze] at hanalyze
      exact ih hanalyze
  | left _ ih =>
      obtain ⟨_, _, hl, _, _, _⟩ := analyze_binary_eq_ok hanalyze
      exact ih hl
  | right _ ih =>
      obtain ⟨_, _, _, hr, _, _⟩ := analyze_binary_eq_ok hanalyze
      exact ih hr
  | argument member _ ih =>
      obtain ⟨_, harguments, _⟩ := analyze_call_eq_ok hanalyze
      obtain ⟨_, hargument⟩ := harguments _ member
      exact ih hargument

/-- A bitwise node of an expression that passes the analysis has operands of type integer. -/
theorem numericType_of_bitwise {op : Operator} {lhs rhs e : Expr} {line : Nat}
    {type : NumericType} (hbitwise : op.isBitwise) (hanalyze : e.analyze = .ok type)
    (hnode : Occurs (.binary op lhs rhs line) e) :
    lhs.numericType = .integer ∧ rhs.numericType = .integer := by
  obtain ⟨_, hnode'⟩ := hnode.exists_analyze hanalyze
  obtain ⟨left, right, hl, hr, haccepts, _⟩ := analyze_binary_eq_ok hnode'
  rw [← eq_numericType_of_analyze hl, ← eq_numericType_of_analyze hr]
  simpa [Operator.accepts, hbitwise] using haccepts

end Expr

namespace Numeral

theorem isWhole_of_whole? {base : Nat} {digits : List Char} {value : Binary64}
    {numericType : NumericType} (h : whole? base digits = some (value, numericType)) :
    value.IsWhole := by
  unfold whole? at h
  split at h
  · split at h
    · rename_i n _ hsmall
      cases h
      exact Binary64.isWhole_ofNat hsmall
    · cases h
  · cases h

theorem float_of_fractional? {text : List Char} {value : Binary64} {numericType : NumericType}
    (h : fractional? text = some (value, numericType)) : numericType = .float := by
  unfold fractional? at h
  dsimp only at h
  split at h
  · cases h
    rfl
  · cases h

theorem isWhole_of_read? {kind : Token.Kind} {text : List Char} {value : Binary64}
    (h : read? kind text = some (value, .integer)) : value.IsWhole := by
  cases kind with
  | intLiteral => exact isWhole_of_whole? h
  | hexLiteral => exact isWhole_of_whole? h
  | binLiteral => exact isWhole_of_whole? h
  | floatLiteral => cases float_of_fractional? h
  | _ => cases h

end Numeral

namespace Expr

def HasWholeLiterals (e : Expr) : Prop :=
  ∀ value line, Occurs (.literal value .integer line) e → value.IsWhole

theorem HasWholeLiterals.of_occurs {node e : Expr} (h : e.HasWholeLiterals)
    (hnode : Occurs node e) : node.HasWholeLiterals :=
  fun value line hliteral => h value line (hliteral.trans hnode)

theorem hasWholeLiterals_of_parse {source : String} {e : Expr} (h : parse source = .ok e) :
    e.HasWholeLiterals := by
  obtain ⟨tokens, _, d, _, rfl⟩ := Grammar.derivation_of_whole h
  refine d.holds (P := HasWholeLiterals) ?_ ?_ ?_ ?_ ?_
  · intro kind text x numericType line hread value line' hliteral
    cases hliteral
    exact Numeral.isWhole_of_read? hread
  · intro c line value line' hliteral
    cases hliteral
  · intro operand line hoperand value line' hliteral
    cases hliteral with
    | operand inside => exact hoperand value line' inside
  · intro op lhs rhs line hl hr value line' hliteral
    cases hliteral with
    | left inside => exact hl value line' inside
    | right inside => exact hr value line' inside
  · intro f arguments line harguments value line' hliteral
    cases hliteral with
    | argument member inside => exact harguments _ member value line' inside

end Expr

end Calculator
