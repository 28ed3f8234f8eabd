import Calculator.Calculate
import Calculator.Parser.Transport

/-!
Places tell nothing but where things are. Analysis and evaluation of an expression whose lines have
changed go as before, and so does the parser on the same items at other places. Two sources that
differ only in layout therefore have the same outcome, up to the places that are reported.
-/

namespace Calculator

/-- An error that is renamed is renamed on whichever side of a bind it arises. -/
private theorem mapError_bind {ε ε' α β : Type} (rename : ε → ε') (x : Except ε α)
    (next : α → Except ε β) :
    (x >>= next).mapError rename = x.mapError rename >>= fun a => (next a).mapError rename := by
  cases x <;> rfl

theorem Operator.check_relocate (r : Relocation) (op : Operator) (lhs rhs : NumericType)
    (line : Nat) :
    op.check lhs rhs (r.line line) = (op.check lhs rhs line).mapError (.relocate r) := by
  unfold check
  split <;> rfl

theorem NamedFunction.checkArity_relocate (r : Relocation) (f : NamedFunction) (found line : Nat) :
    f.checkArity found (r.line line) = (f.checkArity found line).mapError (.relocate r) := by
  unfold checkArity
  split <;> rfl

namespace Expr

variable (r : Relocation)

theorem length_relocateAll (es : List Expr) : (relocateAll r es).length = es.length := by
  induction es with
  | nil => rfl
  | cons e rest ih => exact congrArg Nat.succ ih

mutual

/-- The analysis reaches the same verdict on other lines. -/
theorem analyze_relocate : ∀ e : Expr,
    (e.relocate r).analyze = e.analyze.mapError (.relocate r)
  | .literal .. | .constant .. => rfl
  | .negation operand _ => operand.analyze_relocate
  | .binary op lhs rhs line => by
      simp only [relocate, analyze, mapError_bind, lhs.analyze_relocate, rhs.analyze_relocate,
        op.check_relocate]
      rfl
  | .call f arguments line => by
      simp only [relocate, analyze, mapError_bind, analyzeAll_relocate arguments,
        f.checkArity_relocate, length_relocateAll]
      rfl

theorem analyzeAll_relocate : ∀ es : List Expr,
    analyzeAll (relocateAll r es) = (analyzeAll es).mapError (.relocate r)
  | [] => rfl
  | e :: rest => by
      simp only [relocateAll, analyzeAll, mapError_bind, e.analyze_relocate,
        analyzeAll_relocate rest]

end

mutual

/-- An expression has the same value on other lines. -/
theorem evaluate_relocate : ∀ e : Expr, (e.relocate r).evaluate = e.evaluate
  | .literal .. | .constant .. => rfl
  | .negation operand _ => by rw [relocate, evaluate, evaluate, operand.evaluate_relocate]
  | .binary op lhs rhs _ => by
      rw [relocate, evaluate, evaluate, lhs.evaluate_relocate, rhs.evaluate_relocate]
  | .call f arguments _ => by
      rw [relocate, evaluate, evaluate, evaluateAll_relocate arguments]

theorem evaluateAll_relocate : ∀ es : List Expr,
    evaluateAll (relocateAll r es) = evaluateAll es
  | [] => rfl
  | e :: rest => by
      rw [relocateAll, evaluateAll, evaluateAll, e.evaluate_relocate, evaluateAll_relocate rest]

end

/-- Items at other places are read as the same expression on other lines, or the same error is
reported elsewhere. -/
theorem ofTokens_relocate (l : ItemList) : ofTokens (l.relocate r) = r.result (ofTokens l) :=
  Parser.whole_transport (.ofItemList r) nestingLimit l

/-- Columns make no difference to an expression. -/
theorem ofTokens_of_toMargin {l m : ItemList} (h : l.relocate .toMargin = m.relocate .toMargin)
    {e : Expr} (hl : ofTokens l = .ok e) : ofTokens m = .ok e := by
  have hsame (e : Expr) : e.relocate .toMargin = e := e.relocate_of_line fun _ => rfl
  have hm := ofTokens_relocate .toMargin m
  rw [← h, ofTokens_relocate, hl, Relocation.result, hsame] at hm
  cases hread : ofTokens m with
  | error problem =>
      rw [hread] at hm
      cases hm
  | ok e' =>
      rw [hread, Relocation.result, hsame] at hm
      exact hm.symm

end Expr

namespace Item

/-- What an item holds besides its place. -/
def content : Item → Token.Kind × String ⊕ Char
  | .ok t => .inl (t.kind, t.text)
  | .error found => .inr found.character

def ofContent : Token.Kind × String ⊕ Char → Item
  | .inl (kind, text) => .ok ⟨kind, text, .start⟩
  | .inr character => .error ⟨character, .start⟩

theorem relocate_forget (item : Item) : item.relocate .forget = ofContent item.content := by
  cases item <;> rfl

end Item

/-- Lists of items with the same contents are the same once their places are forgotten. -/
theorem ItemList.relocate_forget_of_content {l m : ItemList}
    (h : l.items.map Item.content = m.items.map Item.content) :
    l.relocate .forget = m.relocate .forget := by
  have hitems (k : ItemList) : k.items.map (Item.relocate .forget) =
      (k.items.map Item.content).map Item.ofContent := by
    rw [List.map_map]
    exact List.map_congr_left fun item _ => item.relocate_forget
  rw [relocate, relocate, hitems, hitems, h]
  rfl

/-- What is read at its new place is analyzed and evaluated to the same value, or its error is
found at the new place. -/
theorem calculate_relocate (r : Relocation) (source : String) :
    (calculate source).mapError (Diagnostic.relocate r) =
      ((r.result (Expr.parse source)).mapError Diagnostic.malformed).bind fun e =>
        (e.analyze.mapError Diagnostic.illTyped).map fun _ => e.evaluate := by
  unfold calculate
  cases Expr.parse source with
  | error problem => rfl
  | ok e =>
      change _ = ((e.relocate r).analyze.mapError Diagnostic.illTyped).map fun _ =>
        (e.relocate r).evaluate
      rw [e.analyze_relocate, e.evaluate_relocate]
      dsimp only
      cases e.analyze <;> rfl

/-- Layout never influences the outcome. Where the scanner hands out the same tokens and the same
unknown characters in the same order, wherever they stand, the parser gives the same expression or
the same error, the analysis reaches the same verdict and the calculation gives the same value, up
to the lines and columns that they report. -/
theorem outcome_of_same_contents {source other : String}
    (h : (Scanner.ofString source).itemList.items.map Item.content =
      (Scanner.ofString other).itemList.items.map Item.content) :
    Relocation.forget.result (Expr.parse source) = Relocation.forget.result (Expr.parse other) ∧
      (∀ e e', Expr.parse source = .ok e → Expr.parse other = .ok e' →
        e.analyze.mapError (AnalysisError.relocate .forget) =
          e'.analyze.mapError (AnalysisError.relocate .forget)) ∧
      (calculate source).mapError (Diagnostic.relocate .forget) =
        (calculate other).mapError (Diagnostic.relocate .forget) := by
  have hparse : Relocation.forget.result (Expr.parse source) =
      Relocation.forget.result (Expr.parse other) := by
    rw [Expr.parse, Expr.parse, ← Expr.ofTokens_itemList, ← Expr.ofTokens_itemList,
      ← Expr.ofTokens_relocate, ← Expr.ofTokens_relocate, ItemList.relocate_forget_of_content h]
  refine ⟨hparse, fun e e' he he' => ?_, ?_⟩
  · rw [he, he'] at hparse
    have hmoved : e.relocate .forget = e'.relocate .forget := Except.ok.inj hparse
    rw [← e.analyze_relocate, ← e'.analyze_relocate, hmoved]
  · rw [calculate_relocate, calculate_relocate, hparse]

/-- A conjunction on one line, or behind a comment and on the next line. -/
theorem outcome_of_same_contents_over_two_lines :
    (Scanner.ofString "1 & 2.5").itemList.items.map Item.content =
        (Scanner.ofString "1 // one\n&2.5").itemList.items.map Item.content ∧
      Relocation.forget.result (Expr.parse "1 & 2.5") =
        Relocation.forget.result (Expr.parse "1 // one\n&2.5") ∧
      (∀ e e', Expr.parse "1 & 2.5" = .ok e → Expr.parse "1 // one\n&2.5" = .ok e' →
        e.analyze.mapError (AnalysisError.relocate .forget) =
          e'.analyze.mapError (AnalysisError.relocate .forget)) ∧
      (calculate "1 & 2.5").mapError (Diagnostic.relocate .forget) =
        (calculate "1 // one\n&2.5").mapError (Diagnostic.relocate .forget) := by
  have h : (Scanner.ofString "1 & 2.5").itemList.items.map Item.content =
      (Scanner.ofString "1 // one\n&2.5").itemList.items.map Item.content := by
    decide +kernel
  exact ⟨h, outcome_of_same_contents h⟩

end Calculator
