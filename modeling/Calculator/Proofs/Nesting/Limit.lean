import Calculator.Parser.Transport
import Calculator.Proofs.Nesting.Simulation

/-!
What the limit on nesting changes. It is the parser without a limit up to the first attempt to open
one atom too many, and it fails there.
-/

namespace Calculator

open Reading
open Procedure (run)

variable {σ : Type} [TokenSource σ]

def Queue.ofSource : SupplyMap σ (Queue σ) where
  toFun source := ⟨[], source⟩
  next_toFun _ := rfl

namespace Reader

variable {n : Nat} {limit : Option Nat}

/-- A whole supply is read to an end, and where that succeeds a token is in view. -/
theorem whole_ends (limit : Option Nat) (r : Reader σ) : Ends limit (whole limit) r (0 < ·) := by
  refine .bind (run_ends limit _ r) fun e r' _ _ => .current_bind fun c hview => ?_
  split
  · exact .pure (size_pos (view_pulled _ _))
  · exact .throw

theorem whole_agrees (hlimit : limit = none ∨ limit = some n) (r : Reader σ) (hr : r.depth = 0) :
    Agrees n limit (whole limit) r (r.view >>= everything n) := by
  have hexpression := phrase_agrees (atom_agrees hlimit 0) (some .disjunction) r hr
  refine .bind (run_ends limit _ r) hexpression fun e r' _ _ => ?_
  refine .current_bind fun c hview => ?_
  rw [peek_bind_apply]
  split
  · exact .pure_of_view (view_pulled r' c) e
  · exact .throw _

/-- The reader of a whole supply, with or without a limit, against the parser with room for as many
atoms. -/
theorem exists_whole_eq (hlimit : limit = none ∨ limit = some n) (source : σ) :
    ∃ out final, whole limit (ofSource source) = some (out, final) ∧
      Keeps limit (ofSource source) final ∧
      Parser.whole n source = (match firstDeep n final.attempts with
        | none => out
        | some a => .error (.nestingTooDeep a.token.line)) ∧
      (limit = some n → out = Parser.whole n source) := by
  obtain ⟨out, final, hrun, hkeeps, hleft⟩ := whole_ends limit (ofSource source)
  obtain ⟨new, hnew, hverdict⟩ := whole_agrees hlimit (ofSource source) rfl out final hrun
  have hattempts : final.attempts = new := hnew
  have hparser : Parser.whole n source =
      ((ofSource source).view >>= everything n).map Prod.fst :=
    (Parser.whole_toFun Queue.ofSource n source).symm.trans (whole_eq n _)
  refine ⟨out, final, hrun, hkeeps, ?_⟩
  rw [hattempts, hparser]
  cases hdeep : firstDeep n new with
  | none =>
      rw [hdeep] at hverdict
      rw [hverdict]
      cases out with
      | error e => exact ⟨rfl, fun _ => rfl⟩
      | ok e =>
          have hsize := hleft e rfl
          rw [size] at hsize
          cases hview : final.view with
          | error found =>
              rw [hview] at hsize
              exact absurd hsize (Nat.lt_irrefl 0)
          | ok c => exact ⟨rfl, fun _ => rfl⟩
  | some a =>
      rw [hdeep] at hverdict
      rw [hverdict.1]
      exact ⟨rfl, hverdict.2⟩

/-- The limit changes nothing but what is nested too deeply. Without it the text is read to an end;
if no atom is to be opened there where 128 are open, the parser gives the same answer, and otherwise
it finds the nesting too deep at the first token where one is. In particular it accepts nothing else
and builds no other tree. The reader with the limit is the parser, and never has more than 128 atoms
open; and every procedure, from every state, comes to an end with as many atoms open as before. -/
theorem parse_eq_unlimited (source : String) :
    (∃ out final, whole none (ofSource (Scanner.ofString source)) = some (out, final) ∧
      Expr.parse source = (match firstDeep 128 final.attempts with
        | none => out
        | some a => .error (.nestingTooDeep a.token.line)) ∧
      ∀ tree, Expr.parse source = .ok tree → out = .ok tree) ∧
    (∃ final, whole (some 128) (ofSource (Scanner.ofString source)) =
        some (Expr.parse source, final) ∧ final.peak ≤ 128) ∧
    ∀ (limit : Option Nat) (p : Procedure) (r : Reader Scanner),
      ∃ out r', run limit p r = some (out, r') ∧ r'.depth = r.depth ∧
        ∀ n, limit = some n → r.peak ≤ n → r'.peak ≤ n := by
  refine ⟨?_, ?_, fun limit p r => ?_⟩
  · obtain ⟨out, final, hrun, _, hparse, _⟩ :=
      exists_whole_eq (.inl rfl) (Scanner.ofString source) (n := 128)
    refine ⟨out, final, hrun, hparse, fun tree htree => ?_⟩
    have hanswer := hparse.symm.trans htree
    cases hdeep : firstDeep 128 final.attempts with
    | none =>
        rw [hdeep] at hanswer
        exact hanswer
    | some a =>
        rw [hdeep] at hanswer
        cases hanswer
  · obtain ⟨out, final, hrun, hkeeps, _, hout⟩ :=
      exists_whole_eq (.inr rfl) (Scanner.ofString source) (n := 128)
    cases hout rfl
    exact ⟨final, hrun, Nat.le_trans (hkeeps.peak_le 128 rfl)
      (Nat.max_le.mpr ⟨Nat.zero_le 128, Nat.le_refl 128⟩)⟩
  · obtain ⟨out, r', hrun, hkeeps, _⟩ := run_ends limit p r
    refine ⟨out, r', hrun, hkeeps.depth_eq, fun n hn hpeak => ?_⟩
    exact Nat.le_trans (hkeeps.peak_le n hn) (Nat.max_le.mpr ⟨hpeak, Nat.le_refl n⟩)

end Reader

end Calculator
