import Calculator.Parser.Expression

/-!
What a reading looks at. A reading passes some tokens and comes to a stop with one more token in
view. It is local: from every other cursor that shows the same tokens up to the one in view, the
same value is read or the same error is raised, whatever stands behind. The only way out is a
character that starts no token, right behind the last token that was passed.
-/

namespace Calculator

open Calculator.Parser

variable {σ : Type} [TokenSource σ] {α β : Type}

/-- Passing tokens one by one leads from a cursor to another one. -/
inductive Cursor.Passes : Cursor σ → List Token → Cursor σ → Prop where
  | here (c : Cursor σ) : Passes c [] c
  | token {c : Cursor σ} {r : Parsed σ Token c.size} {read : List Token} {stop : Cursor σ}
      (first : Parser.token c = .ok r) (others : Passes r.rest read stop) :
      Passes c (c.token :: read) stop

namespace Cursor.Passes

variable {c c' mid stop stop' : Cursor σ} {read read' : List Token} {t : Token}

theorem token_eq (h : c.Passes (t :: read) stop) : c.token = t := by
  cases h
  rfl

theorem trans (h : c.Passes read mid) (h' : mid.Passes read' stop) :
    c.Passes (read ++ read') stop := by
  induction h with
  | here => exact h'
  | token first _ ih => exact .token first (ih h')

theorem exists_of_append (h : c.Passes (read ++ read') stop) :
    ∃ mid, c.Passes read mid ∧ mid.Passes read' stop := by
  induction read generalizing c with
  | nil => exact ⟨c, .here c, h⟩
  | cons t read ih =>
      cases h with
      | token first others =>
          obtain ⟨mid, hread, hread'⟩ := ih others
          exact ⟨mid, .token first hread, hread'⟩

theorem head?_eq (h : c.Passes read stop) : (read ++ [stop.token]).head? = some c.token := by
  cases h <;> rfl

/-- Where the same tokens are passed and the same one comes into view behind them, the first token
in view was the same. -/
theorem first_eq (h : c.Passes read stop) (h' : c'.Passes read stop')
    (hstop : stop'.token = stop.token) : c'.token = c.token := by
  have heq := h'.head?_eq
  rw [hstop, h.head?_eq] at heq
  exact Option.some.inj heq.symm

end Cursor.Passes

/-- A reading that tells the cursor behind it, without a bound on its size. -/
abbrev Reading (σ : Type) (α : Type) : Type :=
  StateT (Cursor σ) (Except SyntaxError) α

namespace Reading

def of (p : Parser σ α) : Reading σ α := fun c =>
  (p c).map fun r => (r.value, r.rest)

def peek : Reading σ Token := fun c =>
  .ok (c.token, c)

/-- What a parser leaves behind is smaller. -/
theorem size_lt_of_eq_ok {p : Parser σ α} {c stop : Cursor σ} {v : α}
    (h : of p c = .ok (v, stop)) : stop.size < c.size := by
  unfold of at h
  cases hp : p c with
  | error e =>
      rw [hp] at h
      cases h
  | ok r =>
      rw [hp] at h
      cases h
      exact r.size_lt

/-- A token that is passed is the one in view, and the next one comes into view. -/
theorem of_token_eq_ok {c : Cursor σ} {r : Parsed σ Token c.size}
    (h : Parser.token c = .ok r) : c.token.kind ≠ .endOfInput ∧ r.value = c.token ∧
      TokenSource.next c.source = (.ok r.rest.token, r.rest.source) := by
  unfold Parser.token at h
  split at h
  · cases h
  · rename_i hend
    cases hnext : TokenSource.next c.source with
    | mk item behind =>
        cases item with
        | error found =>
            rw [Cursor.ofSource_of_next_error hnext] at h
            cases h
        | ok t =>
            rw [Cursor.ofSource_of_next_ok hnext] at h
            cases h
            exact ⟨hend, rfl, rfl⟩

theorem exists_token_eq_ok {c rest : Cursor σ} (hend : c.token.kind ≠ .endOfInput)
    (hnext : TokenSource.next c.source = (.ok rest.token, rest.source)) :
    ∃ hsize, Parser.token c = .ok ⟨c.token, rest, hsize⟩ := by
  unfold Parser.token
  rw [dif_neg hend, Cursor.ofSource_of_next_ok hnext]
  exact ⟨_, rfl⟩

/-- The end of input is not passed. -/
theorem kind_ne_endOfInput_of_passes {c stop : Cursor σ} {read : List Token}
    (h : c.Passes read stop) : ∀ t ∈ read, t.kind ≠ .endOfInput := by
  induction h with
  | here => simp
  | token first _ ih =>
      intro t ht
      rcases List.mem_cons.mp ht with rfl | ht
      · exact (of_token_eq_ok first).1
      · exact ih t ht

/-- Before the end of input, only an unknown character stops the reader from going on. -/
theorem eq_unknownCharacter_of_token_eq_error {c : Cursor σ} {e : SyntaxError}
    (hend : c.token.kind ≠ .endOfInput) (h : Parser.token c = .error e) :
    ∃ found, e = .unknownCharacter found := by
  unfold Parser.token at h
  rw [dif_neg hend] at h
  cases hnext : TokenSource.next c.source with
  | mk item behind =>
      cases item with
      | error found =>
          rw [Cursor.ofSource_of_next_error hnext] at h
          cases h
          exact ⟨found, rfl⟩
      | ok t =>
          rw [Cursor.ofSource_of_next_ok hnext] at h
          cases h

/-- What happens where a reading starts from a cursor: it returns a value, or it fails, in both
cases by the tokens that it passed and the one in view alone, or it meets an unknown character. -/
inductive Does (f : Reading σ α) (c : Cursor σ) (success : List Token → Token → α → Prop)
    (failure : List Token → Token → SyntaxError → Prop) : Prop where
  | returns {read : List Token} {stop : Cursor σ} {v : α} (passes : c.Passes read stop)
      (alike : ∀ c' stop', c'.Passes read stop' → stop'.token = stop.token →
        f c' = .ok (v, stop'))
      (holds : success read stop.token v) : Does f c success failure
  | fails {read : List Token} {stop : Cursor σ} {e : SyntaxError} (passes : c.Passes read stop)
      (alike : ∀ c' stop', c'.Passes read stop' → stop'.token = stop.token → f c' = .error e)
      (holds : failure read stop.token e) : Does f c success failure
  | blocked {found : UnknownCharacter} (h : f c = .error (.unknownCharacter found)) :
      Does f c success failure

namespace Does

variable {f : Reading σ α} {g : α → Reading σ β} {c : Cursor σ}
  {success success' : List Token → Token → α → Prop}
  {success'' : List Token → Token → β → Prop}
  {failure failure' : List Token → Token → SyntaxError → Prop}

/-- A weaker outcome, given the first token of what was passed or is in view behind it. -/
theorem mono (h : f.Does c success failure)
    (hs : ∀ read t v, (read ++ [t]).head? = some c.token → success read t v → success' read t v)
    (hf : ∀ read t e, (read ++ [t]).head? = some c.token → failure read t e →
      failure' read t e) : f.Does c success' failure' := by
  cases h with
  | returns passes alike holds => exact .returns passes alike (hs _ _ _ passes.head?_eq holds)
  | fails passes alike holds => exact .fails passes alike (hf _ _ _ passes.head?_eq holds)
  | blocked h => exact .blocked h

/-- What was passed or is in view behind it begins with the token in view. -/
theorem and_head?_eq (h : f.Does c success failure) :
    f.Does c (fun read t v => (read ++ [t]).head? = some c.token ∧ success read t v)
      (fun read t e => (read ++ [t]).head? = some c.token ∧ failure read t e) :=
  h.mono (fun _ _ _ hread hsuccess => ⟨hread, hsuccess⟩)
    (fun _ _ _ hread hfailure => ⟨hread, hfailure⟩)

theorem pure {v : α} (h : success [] c.token v) :
    (Pure.pure v : Reading σ α).Does c success failure := by
  refine .returns (.here c) ?_ h
  intro c' stop' hpasses _
  cases hpasses
  rfl

theorem throw {e : SyntaxError} (h : failure [] c.token e) :
    (MonadExcept.throw e : Reading σ α).Does c success failure := by
  refine .fails (.here c) ?_ h
  intro c' stop' _ _
  rfl

/-- Looking at the token in view before anything else. -/
theorem peek_bind {g : Token → Reading σ β}
    (h : (g c.token).Does c success'' failure) :
    (Reading.peek >>= g).Does c success'' failure := by
  cases h with
  | returns passes alike holds =>
      refine .returns passes ?_ holds
      intro c' stop' hpasses hstop
      change g c'.token c' = _
      rw [passes.first_eq hpasses hstop]
      exact alike c' stop' hpasses hstop
  | fails passes alike holds =>
      refine .fails passes ?_ holds
      intro c' stop' hpasses hstop
      change g c'.token c' = _
      rw [passes.first_eq hpasses hstop]
      exact alike c' stop' hpasses hstop
  | blocked h => exact .blocked h

/-- One reading after the other. The second one is told what the first one passed. -/
theorem bind (hf : f.Does c success failure')
    (hg : ∀ read stop v, f c = .ok (v, stop) → success read stop.token v →
      (g v).Does stop (fun read' t w => success'' (read ++ read') t w)
        (fun read' t e => failure (read ++ read') t e))
    (hfailure : ∀ read t e, failure' read t e → failure read t e) :
    (f >>= g).Does c success'' failure := by
  cases hf with
  | @returns read stop v passes alike holds =>
      have hvalue : f c = .ok (v, stop) := alike c stop passes rfl
      have hnext : (f >>= g) c = g v stop := by
        change (f c >>= fun r => g r.1 r.2) = _
        rw [hvalue]
        rfl
      have hrun : ∀ {c' stop' : Cursor σ} {read' : List Token} {stop'' : Cursor σ},
          stop.Passes read' stop'' → c'.Passes (read ++ read') stop' →
            stop'.token = stop''.token →
              ∃ mid, mid.Passes read' stop' ∧ (f >>= g) c' = g v mid := by
        intro c' stop' read' stop'' hsecond hpasses hstop
        obtain ⟨mid, hread, hread'⟩ := hpasses.exists_of_append
        refine ⟨mid, hread', ?_⟩
        change (f c' >>= fun r => g r.1 r.2) = _
        rw [alike c' mid hread (hsecond.first_eq hread' hstop)]
        rfl
      cases hg read stop v hvalue holds with
      | returns passes' alike' holds' =>
          refine .returns (passes.trans passes') ?_ holds'
          intro c' stop' hpasses hstop
          obtain ⟨mid, hmid, heq⟩ := hrun passes' hpasses hstop
          rw [heq]
          exact alike' mid stop' hmid hstop
      | fails passes' alike' holds' =>
          refine .fails (passes.trans passes') ?_ holds'
          intro c' stop' hpasses hstop
          obtain ⟨mid, hmid, heq⟩ := hrun passes' hpasses hstop
          rw [heq]
          exact alike' mid stop' hmid hstop
      | blocked h => exact .blocked (hnext.trans h)
  | @fails read stop e passes alike holds =>
      refine .fails passes ?_ (hfailure read stop.token e holds)
      intro c' stop' hpasses hstop
      change (f c' >>= fun r => g r.1 r.2) = _
      rw [alike c' stop' hpasses hstop]
      rfl
  | @blocked found h =>
      have hstop : (f >>= g) c = .error (.unknownCharacter found) := by
        change (f c >>= fun r => g r.1 r.2) = _
        rw [h]
        rfl
      exact .blocked hstop

theorem token (hend : c.token.kind ≠ .endOfInput) :
    (of Parser.token).Does c (fun read _ v => read = [c.token] ∧ v = c.token)
      (fun _ _ _ => False) := by
  cases htoken : Parser.token c with
  | error e =>
      obtain ⟨found, rfl⟩ := eq_unknownCharacter_of_token_eq_error hend htoken
      have hstop : of Parser.token c = .error (.unknownCharacter found) := by
        rw [of, htoken]
        rfl
      exact .blocked hstop
  | ok r =>
      refine .returns (.token htoken (.here _)) ?_ ⟨rfl, rfl⟩
      intro c' stop' hpasses _
      have hfirst := hpasses.token_eq
      rw [← hfirst] at hpasses ⊢
      cases hpasses with
      | token first others =>
          cases others
          rw [of, first]
          exact congrArg Except.ok (Prod.ext (of_token_eq_ok first).2.1 rfl)

/-- Passing the token in view before anything else. -/
theorem token_bind {g : Token → Reading σ β} (hend : c.token.kind ≠ .endOfInput)
    (hg : ∀ rest : Cursor σ, rest.size < c.size →
      (g c.token).Does rest (fun read t w => success'' (c.token :: read) t w)
        (fun read t e => failure (c.token :: read) t e)) :
    (of Parser.token >>= g).Does c success'' failure := by
  refine (token hend).bind ?_ (fun _ _ _ h => h.elim)
  rintro read stop v hvalue ⟨rfl, rfl⟩
  exact hg stop (size_lt_of_eq_ok hvalue)

end Does

end Reading

end Calculator
