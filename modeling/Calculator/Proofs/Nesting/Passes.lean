import Calculator.Proofs.Nesting.Frames
import Calculator.Proofs.Writing.RoundTrip

/-!
How deep the passes go into what the parser accepts. The limit on nesting bounds every path past its
left operands, and the number of tokens bounds the height and with it the frames that any pass
takes. The limit does not bound the height: a sum nests nowhere, and is as high as it has terms.
-/

namespace Calculator

open Grammar

/-- On every path of a tree that is read, no more than six nodes for each permitted atom are not
left operands; the tree is no higher than there are tokens; and with as many frames as it is high,
every pass over it comes to its end. -/
theorem height_of_parse_eq_ok {source : String} {e : Expr} (h : Expr.parse source = .ok e) :
    e.rightHeight ≤ 6 * Expr.nestingLimit ∧
      e.height ≤ (Scanner.ofString source).itemList.items.length ∧
      ∀ frames, e.height ≤ frames →
        withFrames Expr.analyzeBody frames e = some e.analyze ∧
          withFrames Expr.numericTypeBody frames e = some e.numericType ∧
          withFrames Expr.evaluateBody frames e = some e.evaluate ∧
          ∀ depth, withFrames Expr.outlineBody frames (depth, e) = some (e.outline depth) := by
  obtain ⟨tokens, hitems, d, hroom, rfl⟩ := derivation_of_whole h
  refine ⟨?_, ?_, fun frames hframes => ?_⟩
  · exact Nat.le_trans d.rightHeight_le (Nat.mul_le_mul_left 6 hroom)
  · rw [hitems, List.length_map]
    exact d.height_le
  · exact ⟨Expr.analyze_withFrames hframes, Expr.numericType_withFrames hframes,
      Expr.evaluate_withFrames hframes, fun _ => Expr.outline_withFrames hframes⟩

/-- A sum with a call in its third term. -/
theorem height_of_parse_eq_ok_of_sum :
    ∃ e, Expr.parse "1 + 2 - pow(3, -4) + 5" = .ok e ∧ e.height = 5 ∧
      e.rightHeight ≤ 6 * Expr.nestingLimit ∧
      e.height ≤ (Scanner.ofString "1 + 2 - pow(3, -4) + 5").itemList.items.length ∧
      ∀ frames, e.height ≤ frames →
        withFrames Expr.analyzeBody frames e = some e.analyze ∧
          withFrames Expr.numericTypeBody frames e = some e.numericType ∧
          withFrames Expr.evaluateBody frames e = some e.evaluate ∧
          ∀ depth, withFrames Expr.outlineBody frames (depth, e) = some (e.outline depth) := by
  have hheight : (Expr.parse "1 + 2 - pow(3, -4) + 5").toOption.map Expr.height = some 5 := by
    decide +kernel
  cases hparse : Expr.parse "1 + 2 - pow(3, -4) + 5" with
  | error found =>
      rw [hparse] at hheight
      cases hheight
  | ok e =>
      rw [hparse] at hheight
      exact ⟨e, rfl, Option.some.inj hheight, height_of_parse_eq_ok hparse⟩

namespace Literal

def one : Literal :=
  .decimal ['1'] (List.cons_ne_nil _ _) (by simp) (by decide)

end Literal

namespace Lexeme

def addedOnes : Nat → List Lexeme
  | 0 => []
  | n + 1 => .operator .add :: .literal .one :: addedOnes n

theorem isToken_addedOnes (n : Nat) : ∀ l ∈ addedOnes n, l.IsToken := by
  intro l hl
  induction n with
  | zero => cases hl
  | succ n ih =>
      rcases List.mem_cons.mp hl with rfl | hl
      · exact isToken_operator .add
      · rcases List.mem_cons.mp hl with rfl | hl
        · exact isToken_literal .one
        · exact ih hl

end Lexeme

/-- A text that adds a number of ones to a one. -/
def sumOfOnes (n : Nat) : String :=
  String.ofList (Lexeme.spaced (.literal .one :: Lexeme.addedOnes n))

namespace Grammar.Derivation

/-- Every one that is added puts a node above all that stands to its left. -/
theorem exists_addedOnes {n : Nat} {tokens : List Token}
    (h : tokens.map Token.lexeme = Lexeme.addedOnes n) :
    ∃ d : Derivation (.tail .sum) tokens [], d.nesting ≤ 1 ∧
      ∀ left, (d.value left).height = left.height + n := by
  induction n generalizing tokens with
  | zero =>
      obtain rfl := List.map_eq_nil_iff.mp h
      exact ⟨.done, Nat.zero_le 1, fun left => rfl⟩
  | succ n ih =>
      obtain ⟨sign, tokens, rfl, hsign, h⟩ := List.map_eq_cons_iff.mp h
      obtain ⟨t, tokens, rfl, ht, h⟩ := List.map_eq_cons_iff.mp h
      obtain ⟨atom, hatom, hone⟩ := exists_literal tokens ht
      obtain ⟨operand, hoperand, hnesting⟩ :=
        atom.exists_weaker (stronger? .sum) (strength_le_none _)
      obtain ⟨others, hothers, hheight⟩ := ih h
      have hkind : sign.kind = .plus := Token.kind_of_lexeme hsign
      refine ⟨.operator .add sign (hkind ▸ .add) operand others, ?_, fun left => ?_⟩
      · rw [nesting, hnesting, hone]
        exact Nat.max_le.mpr ⟨Nat.le_refl 1, hothers⟩
      · have hleft := left.height_pos
        rw [value, hheight, Expr.height, hoperand, hatom, Expr.height]
        omega

end Grammar.Derivation

/-- A sum of ones is accepted however long it is, and is as high as it has terms. -/
theorem exists_parse_sumOfOnes (n : Nat) :
    ∃ e, Expr.parse (sumOfOnes n) = .ok e ∧ e.height = n + 1 := by
  have htokens : ∀ l ∈ .literal .one :: Lexeme.addedOnes n, l.IsToken :=
    List.forall_mem_cons.mpr ⟨Lexeme.isToken_literal .one, Lexeme.isToken_addedOnes n⟩
  obtain ⟨tokens, hitems, hlexemes⟩ :=
    Lexeme.exists_tokens_spaced (List.cons_ne_nil _ _) htokens
  obtain ⟨t, rest, rfl, ht, hrest⟩ := List.map_eq_cons_iff.mp hlexemes
  obtain ⟨atom, hatom, hone⟩ := Derivation.exists_literal rest ht
  obtain ⟨first, hfirst, hnesting⟩ := atom.exists_weaker (stronger? .sum) (strength_le_none _)
  obtain ⟨others, hothers, hheight⟩ := Derivation.exists_addedOnes hrest
  obtain ⟨d, hvalue, hroom⟩ :=
    (Derivation.phrase first others).exists_weaker (some .disjunction) (Nat.zero_le _)
  refine ⟨d.value, (whole_of_derivation hitems d Expr.nestingLimit).1 ?_, ?_⟩
  · rw [hroom, Derivation.nesting, hnesting, hone]
    exact Nat.max_le.mpr ⟨by decide, Nat.le_trans hothers (by decide)⟩
  · rw [hvalue, Derivation.value, hheight, hfirst, hatom, Expr.height, Nat.add_comm]

/-- The sum of 769 ones is accepted, is higher than six nodes for each permitted atom, and is not
evaluated with as many frames. -/
theorem sumOfOnes_exceeds_nestingLimit :
    ∃ e, Expr.parse (sumOfOnes 768) = .ok e ∧ 6 * Expr.nestingLimit < e.height ∧
      withFrames Expr.evaluateBody (6 * Expr.nestingLimit) e = none := by
  obtain ⟨e, hparse, hheight⟩ := exists_parse_sumOfOnes 768
  have hhigh : 6 * Expr.nestingLimit < e.height := by
    rw [hheight]
    decide
  refine ⟨e, hparse, hhigh, Option.eq_none_iff_forall_ne_some.mpr fun value hvalue => ?_⟩
  exact absurd (Expr.height_le_of_evaluate_withFrames hvalue) (Nat.not_le_of_lt hhigh)

end Calculator
