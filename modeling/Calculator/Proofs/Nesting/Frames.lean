import Calculator.Expr.Analysis
import Calculator.Expr.Evaluation
import Calculator.Expr.Outline
import Calculator.Proofs.Nesting.Height

/-!
The passes over a tree when no more than so many calls may be open at once. Each pass is written
once more with its recursive calls left open, which is what it takes to run it with a number of
frames. With as many frames as the tree is high, such a run is the pass itself.
-/

namespace Calculator

section WithFrames

variable {α β : Type} {body : (α → Option β) → α → Option β} {f : α → β}

/-- A procedure given by its body, run with a number of frames. A call that finds no frame left has
no answer. -/
def withFrames (body : (α → Option β) → α → Option β) : Nat → α → Option β
  | 0 => fun _ => none
  | frames + 1 => body (withFrames body frames)

/-- A procedure that goes on to what is smaller only, and gives the values of a function where its
calls do, gives them with as many frames as its input is high. -/
theorem withFrames_eq_some (size : α → Nat) (positive : ∀ a, 0 < size a)
    (step : ∀ recurse a, (∀ b, size b < size a → recurse b = some (f b)) →
      body recurse a = some (f a))
    {frames : Nat} {a : α} (h : size a ≤ frames) : withFrames body frames a = some (f a) := by
  induction frames generalizing a with
  | zero => exact absurd (positive a) (Nat.not_lt_of_le h)
  | succ frames ih => exact step _ a fun b hb => ih (by omega)

/-- A procedure that goes on to all that is below its input needs as many frames as the input is
high. -/
theorem le_of_withFrames_eq_some (size : α → Nat)
    (visits : ∀ recurse bound a v, (∀ b w, recurse b = some w → size b ≤ bound) →
      body recurse a = some v → size a ≤ bound + 1)
    {frames : Nat} {a : α} {v : β} (h : withFrames body frames a = some v) : size a ≤ frames := by
  induction frames generalizing a v with
  | zero => cases h
  | succ frames ih => exact visits _ frames a v (fun b w hb => ih hb) h

end WithFrames

section MapM

variable {α β : Type} {f : α → Option β} {as : List α}

theorem mapM_eq_some_map {g : α → β} (h : ∀ a ∈ as, f a = some (g a)) :
    as.mapM f = some (as.map g) := by
  induction as with
  | nil => rfl
  | cons a as ih =>
      rw [List.mapM_cons, h a List.mem_cons_self, ih fun b hb => h b (List.mem_cons_of_mem _ hb)]
      rfl

theorem exists_of_mapM_eq_some {bs : List β} (h : as.mapM f = some bs) :
    ∀ a ∈ as, ∃ b, f a = some b := by
  induction as generalizing bs with
  | nil => exact fun a ha => absurd ha List.not_mem_nil
  | cons a as ih =>
      simp only [List.mapM_cons, Option.bind_eq_bind, Option.bind_eq_some_iff] at h
      obtain ⟨b, hb, bs, hbs, _⟩ := h
      intro c hc
      rcases List.mem_cons.mp hc with rfl | hc
      · exact ⟨b, hb⟩
      · exact ih hbs c hc

end MapM

namespace Expr

theorem height_le_maxHeight {e : Expr} {es : List Expr} (h : e ∈ es) : e.height ≤ maxHeight es := by
  induction h with
  | head => exact Nat.le_max_left _ _
  | tail _ _ ih => exact Nat.le_trans ih (Nat.le_max_right _ _)

theorem maxHeight_le {bound : Nat} {es : List Expr} (h : ∀ e ∈ es, e.height ≤ bound) :
    maxHeight es ≤ bound := by
  induction es with
  | nil => exact Nat.zero_le _
  | cons e es ih =>
      exact Nat.max_le.mpr ⟨h e List.mem_cons_self, ih fun e he => h e (List.mem_cons_of_mem _ he)⟩

section Below

variable {operand lhs rhs argument : Expr} {line : Nat} {op : Operator} {function : NamedFunction}
  {arguments : List Expr}

theorem height_operand_lt : operand.height < (negation operand line).height := by
  rw [height]
  omega

theorem height_lhs_lt : lhs.height < (binary op lhs rhs line).height := by
  rw [height]
  omega

theorem height_rhs_lt : rhs.height < (binary op lhs rhs line).height := by
  rw [height]
  omega

theorem height_argument_lt (h : argument ∈ arguments) :
    argument.height < (call function arguments line).height := by
  rw [height]
  exact Nat.lt_succ_of_le (height_le_maxHeight h)

end Below

def evaluateBody (recurse : Expr → Option Binary64) : Expr → Option Binary64
  | .literal value _ _ => some value
  | .constant c _ => some c.value
  | .negation operand _ => do
      let value ← recurse operand
      return -value
  | .binary op lhs rhs _ => do
      let left ← recurse lhs
      let right ← recurse rhs
      return op.apply left right
  | .call f arguments _ => do
      let values ← arguments.mapM recurse
      return f.apply values

theorem evaluate_withFrames {frames : Nat} {e : Expr} (h : e.height ≤ frames) :
    withFrames evaluateBody frames e = some e.evaluate := by
  refine withFrames_eq_some height height_pos (fun recurse e hbelow => ?_) h
  cases e with
  | literal | constant => rfl
  | negation => simp [evaluateBody, evaluate, hbelow _ height_operand_lt]
  | binary => simp [evaluateBody, evaluate, hbelow _ height_lhs_lt, hbelow _ height_rhs_lt]
  | call f arguments line =>
      have harguments := mapM_eq_some_map fun e he => hbelow e (height_argument_lt he)
      simp [evaluateBody, evaluate, evaluateAll_eq_map, harguments]

/-- The evaluation goes down to every leaf. -/
theorem height_le_of_evaluate_withFrames {frames : Nat} {e : Expr} {value : Binary64}
    (h : withFrames evaluateBody frames e = some value) : e.height ≤ frames := by
  refine le_of_withFrames_eq_some height (fun recurse bound e value hbelow h => ?_) h
  cases e with
  | literal | constant => simp [height]
  | negation operand =>
      simp only [evaluateBody, Option.bind_eq_bind, Option.bind_eq_some_iff] at h
      obtain ⟨_, hoperand, _⟩ := h
      exact Nat.succ_le_succ (hbelow _ _ hoperand)
  | binary op lhs rhs =>
      simp only [evaluateBody, Option.bind_eq_bind, Option.bind_eq_some_iff] at h
      obtain ⟨_, hlhs, _, hrhs, _⟩ := h
      exact Nat.succ_le_succ (Nat.max_le.mpr ⟨hbelow _ _ hlhs, hbelow _ _ hrhs⟩)
  | call f arguments =>
      simp only [evaluateBody, Option.bind_eq_bind, Option.bind_eq_some_iff] at h
      obtain ⟨_, harguments, _⟩ := h
      refine Nat.succ_le_succ (maxHeight_le fun e he => ?_)
      obtain ⟨_, hargument⟩ := exists_of_mapM_eq_some harguments e he
      exact hbelow _ _ hargument

def analyzeBody (recurse : Expr → Option (Except AnalysisError NumericType)) :
    Expr → Option (Except AnalysisError NumericType)
  | .literal _ numericType _ => return .ok numericType
  | .constant c _ => return .ok c.numericType
  | .negation operand _ => recurse operand
  | .binary op lhs rhs line => ExceptT.run do
      let left ← ExceptT.mk (recurse lhs)
      let right ← ExceptT.mk (recurse rhs)
      ExceptT.mk (some (op.check left right line))
      return op.resultType left right
  | .call f arguments line => ExceptT.run do
      ExceptT.mk (some (f.checkArity arguments.length line))
      forM arguments fun argument => do
        let _ ← ExceptT.mk (recurse argument)
      return .float

section Answers

variable {ε α β : Type}

theorem pure_eq_mk_some (a : α) : (pure a : ExceptT ε Option α) = ExceptT.mk (some (pure a)) :=
  rfl

theorem mk_some_bind (x : Except ε α) (f : α → Except ε β) :
    (ExceptT.mk (some x) >>= fun a => ExceptT.mk (some (f a))) = ExceptT.mk (some (x >>= f)) := by
  cases x <;> rfl

end Answers

theorem forM_eq_analyzeAll {recurse : Expr → Option (Except AnalysisError NumericType)}
    {es : List Expr} (h : ∀ e ∈ es, recurse e = some e.analyze) :
    (forM es fun e => do let _ ← ExceptT.mk (recurse e)) = ExceptT.mk (some (analyzeAll es)) := by
  induction es with
  | nil => rfl
  | cons e es ih =>
      have hrest := ih fun e he => h e (List.mem_cons_of_mem _ he)
      rw [List.forM_cons, h e List.mem_cons_self, hrest, analyzeAll]
      simp only [pure_eq_mk_some, mk_some_bind]
      cases e.analyze <;> rfl

theorem analyze_withFrames {frames : Nat} {e : Expr} (h : e.height ≤ frames) :
    withFrames analyzeBody frames e = some e.analyze := by
  refine withFrames_eq_some height height_pos (fun recurse e hbelow => ?_) h
  cases e with
  | literal | constant => simp [analyzeBody, analyze]
  | negation => simp [analyzeBody, analyze, hbelow _ height_operand_lt]
  | binary op lhs rhs line =>
      rw [analyzeBody, analyze, hbelow _ height_lhs_lt, hbelow _ height_rhs_lt]
      simp only [pure_eq_mk_some, mk_some_bind]
      rfl
  | call f arguments line =>
      rw [analyzeBody, analyze, forM_eq_analyzeAll fun e he => hbelow e (height_argument_lt he)]
      simp only [pure_eq_mk_some, mk_some_bind]
      rfl

def numericTypeBody (recurse : Expr → Option NumericType) : Expr → Option NumericType
  | .literal _ numericType _ => some numericType
  | .constant c _ => some c.numericType
  | .negation operand _ => recurse operand
  | .binary op lhs rhs _ => do
      let left ← recurse lhs
      let right ← recurse rhs
      return op.resultType left right
  | .call _ _ _ => some .float

theorem numericType_withFrames {frames : Nat} {e : Expr} (h : e.height ≤ frames) :
    withFrames numericTypeBody frames e = some e.numericType := by
  refine withFrames_eq_some height height_pos (fun recurse e hbelow => ?_) h
  cases e with
  | literal | constant | call => rfl
  | negation => simp [numericTypeBody, numericType, hbelow _ height_operand_lt]
  | binary => simp [numericTypeBody, numericType, hbelow _ height_lhs_lt, hbelow _ height_rhs_lt]

def outlineBody (recurse : Nat × Expr → Option (List (Nat × Expr))) :
    Nat × Expr → Option (List (Nat × Expr))
  | (depth, .literal value numericType line) => some [(depth, .literal value numericType line)]
  | (depth, .constant c line) => some [(depth, .constant c line)]
  | (depth, .negation operand line) => do
      let below ← recurse (depth + 1, operand)
      return (depth, .negation operand line) :: below
  | (depth, .binary op lhs rhs line) => do
      let left ← recurse (depth + 1, lhs)
      let right ← recurse (depth + 1, rhs)
      return (depth, .binary op lhs rhs line) :: (left ++ right)
  | (depth, .call f arguments line) => do
      let below ← arguments.mapM fun argument => recurse (depth + 1, argument)
      return (depth, .call f arguments line) :: below.flatten

theorem outline_withFrames {frames depth : Nat} {e : Expr} (h : e.height ≤ frames) :
    withFrames outlineBody frames (depth, e) = some (e.outline depth) := by
  refine withFrames_eq_some (fun a : Nat × Expr => a.2.height)
    (f := fun a : Nat × Expr => a.2.outline a.1) (fun a => height_pos a.2) ?_ h
  rintro recurse ⟨depth, e⟩ hbelow
  cases e with
  | literal | constant => rfl
  | negation => simp [outlineBody, outline, hbelow (_, _) height_operand_lt]
  | binary =>
      simp [outlineBody, outline, hbelow (_, _) height_lhs_lt, hbelow (_, _) height_rhs_lt]
  | call f arguments line =>
      have harguments := mapM_eq_some_map fun e he => hbelow (depth + 1, e) (height_argument_lt he)
      simp [outlineBody, outline, outlineAll_eq_flatMap, List.flatMap, harguments]

end Expr

end Calculator
