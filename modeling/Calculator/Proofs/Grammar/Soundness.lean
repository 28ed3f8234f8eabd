import Calculator.Proofs.Grammar.Reading
import Calculator.Proofs.Lookahead.Outcome

/-!
What the parser reads can be derived. Where the parser gives a value, it has settled it, so that the
value derives from the tokens that were passed.
-/

namespace Calculator

/-- What succeeds in two steps succeeds in each of them. -/
theorem exists_of_bind_eq_ok {ε α β : Type} {x : Except ε α} {f : α → Except ε β} {b : β}
    (h : x >>= f = .ok b) : ∃ a, x = .ok a ∧ f a = .ok b := by
  cases x with
  | error e => cases h
  | ok a => exact ⟨a, rfl, h⟩

variable {σ : Type} [TokenSource σ]

theorem Cursor.Passes.ahead {c stop : Cursor σ} {read after : List Token}
    (h : c.Passes read stop) (hafter : stop.Ahead after) : c.Ahead (read ++ after) := by
  induction h with
  | here => exact hafter
  | token first _ ih =>
      obtain ⟨hend, _, hnext⟩ := Reading.of_token_eq_ok first
      exact .token hend hnext (ih hafter)

namespace Grammar

/-- An expression that the parser reads up to the end of input derives from all the tokens. -/
theorem expression_derives {room : Nat} {c : Cursor σ} {r : Parsed σ Expr c.size}
    (h : Parser.expression (Parser.atom room) c = .ok r)
    (hend : r.rest.token.kind = .endOfInput) :
    ∃ tokens, c.Ahead tokens ∧
      ∃ d : Derivation .expression tokens [], d.value = r.value ∧ d.nesting ≤ room := by
  have hread : Reading.of (Parser.expression (Parser.atom room)) c = .ok (r.value, r.rest) := by
    rw [Reading.of, h]
    rfl
  cases expression_outcome (atom_outcome room) c with
  | returns passes alike settled =>
      cases hread.symm.trans (alike c _ passes rfl)
      exact ⟨_, passes.ahead (.finish hend), settled [] (by simp [Fits])⟩
  | fails passes alike _ => cases hread.symm.trans (alike c _ passes rfl)
  | blocked hblocked => cases hread.symm.trans hblocked

end Grammar

end Calculator
