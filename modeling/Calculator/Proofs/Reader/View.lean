import Calculator.Proofs.Reader.Procedures

/-!
What a reader has in view. Together the tokens that are pending and the supply behind them are a
supply again, and the first token of it is what the reader looks at, passes and runs short of.
-/

namespace Calculator

open Procedure (run)

variable {σ : Type}

structure Queue (σ : Type) where
  pending : List Token
  source : σ

section Binding

variable {ρ α β : Type} {f : ExceptT SyntaxError (StateT ρ Option) α}
  {g : α → ExceptT SyntaxError (StateT ρ Option) β} {r r' : ρ}

theorem bind_of_ok {v : α} (h : f r = some (.ok v, r')) : (f >>= g) r = g v r' := by
  change (f r >>= fun result => ExceptT.bindCont g result.1 result.2) = _
  rw [h]
  rfl

theorem bind_of_error {e : SyntaxError} (h : f r = some (.error e, r')) :
    (f >>= g) r = some (.error e, r') := by
  change (f r >>= fun result => ExceptT.bindCont g result.1 result.2) = _
  rw [h]
  rfl

/-- Two programs one after another stop where the first one fails or where the second one stops. -/
theorem bind_eq_some {out : Except SyntaxError β} (h : (f >>= g) r = some (out, r')) :
    (∃ e, f r = some (.error e, r') ∧ out = .error e) ∨
      ∃ v r₁, f r = some (.ok v, r₁) ∧ g v r₁ = some (out, r') := by
  cases hf : f r with
  | none =>
      change (f r >>= fun result => ExceptT.bindCont g result.1 result.2) = _ at h
      rw [hf] at h
      cases h
  | some result =>
      obtain ⟨first, r₁⟩ := result
      cases first with
      | error e =>
          rw [bind_of_error hf] at h
          cases h
          exact .inl ⟨e, rfl, rfl⟩
      | ok v => exact .inr ⟨v, r₁, rfl, (bind_of_ok hf).symm.trans h⟩

end Binding

namespace Reader

section Opening

variable {α : Type} {f : Machine σ α} {r r' : Reader σ}

/-- The program within one more open atom, which is closed again whether or not it succeeds. -/
def enclosed (f : Machine σ α) : Machine σ α := fun r => do
  let (result, r') ← f r.opened
  return (result, r'.closed)

theorem enclosed_eq {out : Except SyntaxError α} (h : f r.opened = some (out, r')) :
    enclosed f r = some (out, r'.closed) := by
  unfold enclosed
  rw [h]
  rfl

theorem enclosed_eq_some {out : Except SyntaxError α} (h : enclosed f r = some (out, r')) :
    ∃ inner, f r.opened = some (out, inner) ∧ r' = inner.closed := by
  cases hf : f r.opened with
  | none =>
      change (f r.opened >>= fun result => some (result.1, result.2.closed)) = _ at h
      rw [hf] at h
      cases h
  | some result =>
      rw [enclosed_eq hf] at h
      cases h
      exact ⟨result.2, rfl, rfl⟩

theorem attempt_of_refused {limit : Option Nat} {t : Token}
    (h : limit.any (· ≤ r.depth) = true) :
    attempt limit t r = some (.error (.nestingTooDeep t.line), r.attempted t) :=
  if_pos h

theorem attempt_of_permitted {limit : Option Nat} {t : Token}
    (h : limit.any (· ≤ r.depth) = false) :
    attempt limit t r = some (.ok ⟨⟩, r.attempted t) :=
  if_neg (by simp [h])

end Opening

end Reader

variable [TokenSource σ]

instance : TokenSource (Queue σ) where
  next q :=
    match q.pending with
    | t :: rest => (.ok t, ⟨rest, q.source⟩)
    | [] => ((TokenSource.next q.source).1, ⟨[], (TokenSource.next q.source).2⟩)
  remaining q := q.pending.length + TokenSource.remaining q.source
  remaining_next q h := by
    obtain ⟨pending, source⟩ := q
    cases pending with
    | nil => simpa using TokenSource.remaining_next source h
    | cons t rest => simp

namespace Reader

/-- What the reader would see if it looked at the token in view. -/
def view (r : Reader σ) : Except SyntaxError (Cursor (Queue σ)) :=
  (Cursor.ofSource ⟨r.pending, r.source⟩).map Subtype.val

/-- A bound on the tokens still to be passed: nothing if the next item is no token, and one at the
end of input. -/
def size (r : Reader σ) : Nat :=
  match r.view with
  | .ok c => c.size + 1
  | .error _ => 0

/-- The state with the token of the cursor in the queue. It is requested only if the queue is
empty. -/
def pulled (r : Reader σ) (c : Cursor (Queue σ)) : Reader σ :=
  { r with
    source := c.source.source
    pending := c.token :: c.source.pending
    requests := if r.pending.isEmpty then r.requests ++ [.ok c.token] else r.requests
    longest := if r.pending.isEmpty then max r.longest 1 else r.longest }

def passed (r : Reader σ) (c : Cursor (Queue σ)) : Reader σ :=
  (r.pulled c).dropped

section Queueing

variable {r : Reader σ} {t : Token} {behind : σ}

theorem fill_apply (count : Nat) (r : Reader σ) :
    fill count r = store (count - r.pending.length) r :=
  rfl

/-- A token that is pending is in view, and nothing is requested. -/
theorem current_of_pending {rest : List Token} (h : r.pending = t :: rest) :
    current r = some (.ok t, r) := by
  have hfill : fill 1 r = some (.ok ⟨⟩, r) := by
    rw [fill_apply, h, List.length_cons, Nat.sub_eq_zero_of_le (Nat.le_add_left 1 _)]
    rfl
  rw [current, peekNth, bind_of_ok hfill]
  simp [h]

/-- Where none is pending, one token is requested. -/
theorem current_of_next_ok (h : r.pending = [])
    (hnext : TokenSource.next r.source = (.ok t, behind)) :
    current r = some (.ok t, (r.requested (.ok t) behind).stored t) := by
  have hrequest : request r = some (.ok t, r.requested (.ok t) behind) := by
    rw [request, hnext]
  have hfill : fill 1 r = some (.ok ⟨⟩, (r.requested (.ok t) behind).stored t) := by
    rw [fill_apply, h, List.length_nil, store, bind_of_ok hrequest]
    rfl
  rw [current, peekNth, bind_of_ok hfill]
  simp [stored, requested, h]

theorem current_of_next_error {found : UnknownCharacter} (h : r.pending = [])
    (hnext : TokenSource.next r.source = (.error found, behind)) :
    current r = some (.error (.unknownCharacter found), r.requested (.error found) behind) := by
  have hrequest : request r =
      some (.error (.unknownCharacter found), r.requested (.error found) behind) := by
    rw [request, hnext]
  rw [current, peekNth, bind_of_error]
  rw [fill_apply, h, List.length_nil, store, bind_of_error hrequest]

end Queueing

section Views

variable {r : Reader σ} {c : Cursor (Queue σ)}

theorem view_of_next_ok {t : Token} {behind : Queue σ}
    (h : TokenSource.next (Queue.mk r.pending r.source) = (.ok t, behind)) :
    r.view = .ok ⟨t, behind⟩ := by
  unfold view
  rw [Cursor.ofSource_of_next_ok h]
  rfl

theorem view_of_next_error {found : UnknownCharacter} {behind : Queue σ}
    (h : TokenSource.next (Queue.mk r.pending r.source) = (.error found, behind)) :
    r.view = .error (.unknownCharacter found) := by
  unfold view
  rw [Cursor.ofSource_of_next_error h]
  rfl

theorem view_pulled (r : Reader σ) (c : Cursor (Queue σ)) : (r.pulled c).view = .ok c :=
  view_of_next_ok rfl

/-- Looking at the token in view puts it into the queue, unless the item in its place is no token;
then that was the one to be requested. -/
theorem current_eq (r : Reader σ) :
    (∃ c, r.view = .ok c ∧ current r = some (.ok c.token, r.pulled c)) ∨
      ∃ found behind, r.view = .error (.unknownCharacter found) ∧ r.pending = [] ∧
        TokenSource.next r.source = (.error found, behind) ∧
        current r = some (.error (.unknownCharacter found), r.requested (.error found) behind) := by
  cases hpending : r.pending with
  | cons t rest =>
      have hpulled : r.pulled ⟨t, rest, r.source⟩ = r := by
        obtain ⟨record, source, pending, depth⟩ := r
        cases hpending
        rfl
      refine .inl ⟨⟨t, rest, r.source⟩, view_of_next_ok (by rw [hpending]; rfl), ?_⟩
      rw [hpulled]
      exact current_of_pending hpending
  | nil =>
      cases hnext : TokenSource.next r.source with
      | mk item behind =>
          have hqueue : TokenSource.next (Queue.mk r.pending r.source) = (item, ⟨[], behind⟩) := by
            rw [hpending]
            change ((TokenSource.next r.source).1, Queue.mk [] (TokenSource.next r.source).2) = _
            rw [hnext]
          cases item with
          | ok t =>
              have hpulled : r.pulled ⟨t, [], behind⟩ = (r.requested (.ok t) behind).stored t := by
                simp [pulled, requested, stored, hpending]
              refine .inl ⟨⟨t, [], behind⟩, view_of_next_ok hqueue, ?_⟩
              rw [hpulled]
              exact current_of_next_ok hpending hnext
          | error found =>
              exact .inr ⟨found, behind, view_of_next_error hqueue, rfl, rfl,
                current_of_next_error hpending hnext⟩

theorem current_of_view_ok (h : r.view = .ok c) :
    current r = some (.ok c.token, r.pulled c) := by
  rcases current_eq r with ⟨c', hview, hcurrent⟩ | ⟨found, behind, hview, _⟩
  · cases hview.symm.trans h
    exact hcurrent
  · cases hview.symm.trans h

theorem eq_of_current {t : Token} {r' : Reader σ} (hview : r.view = .ok c)
    (h : current r = some (.ok t, r')) : c.token = t ∧ r.pulled c = r' := by
  have hsame := (current_of_view_ok hview).symm.trans h
  simpa using hsame

theorem advance_of_view_ok (h : r.view = .ok c) :
    advance r = some (.ok c.token, r.passed c) := by
  rw [advance, bind_of_ok (current_of_view_ok h)]
  rfl

/-- Asking for the kind of the token in view before anything else. -/
theorem see_bind {β : Type} (kind : Token.Kind) (g : Bool → Machine σ β) :
    (see kind >>= g) = (do
      let t ← current
      g (t.kind = kind)) := by
  simp only [see, bind_assoc, pure_bind]

/-- Passing the token in view if it is of a kind, before anything else. -/
theorem accept_bind_eq {β : Type} (kind : Token.Kind) (g : Option Token → Machine σ β) :
    (accept kind >>= g) = (do
      let t ← current
      if t.kind = kind then do
        let t ← advance
        g (some t)
      else g none) := by
  simp only [accept, see_bind, bind_assoc]
  congr
  funext t
  by_cases h : t.kind = kind <;> simp [h]

theorem size_pos (h : r.view = .ok c) : 0 < r.size := by
  rw [size, h]
  exact Nat.succ_pos _

theorem size_pulled (h : r.view = .ok c) : (r.pulled c).size = r.size := by
  rw [size, size, view_pulled, h]

/-- Passing a token before the end of input leaves less to pass. -/
theorem size_passed_lt (h : r.view = .ok c) (hend : c.token.kind ≠ .endOfInput) :
    (r.passed c).size < r.size := by
  have hsize : r.size = TokenSource.remaining c.source + 1 + 1 := by
    rw [size, h]
    exact congrArg (· + 1) (if_neg hend)
  have hpassed : (r.passed c).size ≤ TokenSource.remaining c.source + 1 := by
    rw [size, view]
    change (match Except.map Subtype.val (Cursor.ofSource c.source) with
      | .ok c => c.size + 1
      | .error _ => 0) ≤ _
    cases Cursor.ofSource c.source with
    | error e => exact Nat.zero_le _
    | ok rest => exact Nat.succ_le_succ rest.property
  rw [hsize]
  exact Nat.lt_succ_of_le hpassed

end Views

theorem run_atom (limit : Option Nat) :
    (run limit (.phrase none) : Machine σ Expr) = (do
      let t ← current
      attempt limit t
      enclosed (run limit (.atomFrom t))) := by
  rw [run]
  rfl

end Reader

end Calculator
