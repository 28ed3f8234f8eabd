import Calculator.Proofs.Pulling.Supply
import Calculator.Proofs.Reader.Counting

/-!
What a reader requests. The requests stay in order, no more than one token is ever pending, and no
item is requested behind one that is no token or is the end of input.
-/

namespace Calculator.Reader

open Procedure (run)

variable {σ : Type} [TokenSource σ]

/-- What holds of a reader at every moment since it started with a supply. -/
structure Orderly (s : σ) (r : Reader σ) : Prop where
  supplies : Supplies s r.requests r.source
  longest_le : r.longest ≤ 1
  passable : ∀ item ∈ r.requests.dropLast, item.Passable

structure Viewing (s : σ) (t : Token) (r : Reader σ) : Prop extends Orderly s r where
  pending_eq : r.pending = [t]
  getLast?_eq : r.requests.getLast? = some (.ok t)

/-- All tokens that were requested are passed. -/
structure Idle (s : σ) (r : Reader σ) : Prop extends Orderly s r where
  pending_eq : r.pending = []
  passable_all : ∀ item ∈ r.requests, item.Passable

/-- A state in which a procedure may look at the token in view. -/
def Ready (s : σ) (r : Reader σ) : Prop :=
  Idle s r ∨ ∃ t, Viewing s t r

section States

variable {s : σ} {t : Token} {r : Reader σ}

theorem Ready.orderly (h : Ready s r) : Orderly s r := by
  rcases h with h | ⟨t, h⟩
  · exact h.toOrderly
  · exact h.toOrderly

theorem Orderly.attempted (h : Orderly s r) (t : Token) : Orderly s (r.attempted t) :=
  ⟨h.supplies, h.longest_le, h.passable⟩

theorem Orderly.dropped (h : Orderly s r) : Orderly s r.dropped :=
  ⟨h.supplies, h.longest_le, h.passable⟩

theorem Orderly.closed (h : Orderly s r) : Orderly s r.closed :=
  ⟨h.supplies, h.longest_le, h.passable⟩

theorem Viewing.opened (h : Viewing s t r) : Viewing s t (r.attempted t).opened :=
  ⟨⟨h.supplies, h.longest_le, h.passable⟩, h.pending_eq, h.getLast?_eq⟩

theorem Ready.closed (h : Ready s r) : Ready s r.closed := by
  rcases h with h | ⟨t, h⟩
  · exact .inl ⟨h.toOrderly.closed, h.pending_eq, h.passable_all⟩
  · exact .inr ⟨t, h.toOrderly.closed, h.pending_eq, h.getLast?_eq⟩

/-- A token before the end of input may be passed. -/
theorem Viewing.dropped (h : Viewing s t r) (hend : t.kind ≠ .endOfInput) : Idle s r.dropped := by
  refine ⟨h.toOrderly.dropped, congrArg List.tail h.pending_eq, fun item hitem => ?_⟩
  obtain ⟨init, hinit⟩ := List.getLast?_eq_some_iff.mp h.getLast?_eq
  have hpassable := h.passable
  rw [hinit, List.dropLast_concat] at hpassable
  change item ∈ r.requests at hitem
  rw [hinit] at hitem
  rcases List.mem_append.mp hitem with hitem | hitem
  · exact hpassable item hitem
  · exact ⟨t, List.mem_singleton.mp hitem, hend⟩

/-- Requesting an item behind tokens that are all passed. -/
theorem Idle.requested {item : Item} {behind : σ} (h : Idle s r)
    (hnext : TokenSource.next r.source = (item, behind)) : Orderly s (r.requested item behind) := by
  constructor
  · have hsupplies := Supplies.next h.supplies
    rw [hnext] at hsupplies
    exact hsupplies
  · exact h.longest_le
  · simpa [Reader.requested] using h.passable_all

theorem Idle.viewing {behind : σ} (h : Idle s r)
    (hnext : TokenSource.next r.source = (.ok t, behind)) :
    Viewing s t ((r.requested (.ok t) behind).stored t) := by
  have hrequested := h.requested hnext
  refine ⟨⟨hrequested.supplies, ?_, hrequested.passable⟩, ?_, ?_⟩
  · have hlongest := h.longest_le
    simp only [stored, Reader.requested, h.pending_eq]
    exact Nat.max_le.mpr ⟨hlongest, Nat.le_refl 1⟩
  · simp [stored, Reader.requested, h.pending_eq]
  · simp [stored, Reader.requested]

/-- What is looked at is pending then, and it was requested last. -/
theorem Ready.viewing {c : Cursor (Queue σ)} (h : Ready s r) (hview : r.view = .ok c) :
    Viewing s c.token (r.pulled c) := by
  rcases h with hidle | ⟨t, hviewing⟩
  · cases hnext : TokenSource.next r.source with
    | mk item behind =>
        cases item with
        | ok t =>
            have hcurrent := current_of_next_ok hidle.pending_eq hnext
            obtain ⟨htoken, hpulled⟩ := eq_of_current hview hcurrent
            rw [hpulled, htoken]
            exact hidle.viewing hnext
        | error found =>
            have hcurrent := current_of_next_error hidle.pending_eq hnext
            cases (current_of_view_ok hview).symm.trans hcurrent
  · obtain ⟨htoken, hpulled⟩ := eq_of_current hview (current_of_pending hviewing.pending_eq)
    rw [hpulled, htoken]
    exact hviewing

end States

/-- A state in which a program may stop with an outcome. After a value the next token may be looked
at, and an unknown character is reported only if it is the last item that was requested. -/
structure Settled (s : σ) {α : Type} (out : Except SyntaxError α) (r : Reader σ) : Prop
    extends Orderly s r where
  ready : ∀ v, out = .ok v → Ready s r
  found : ∀ found, out = .error (.unknownCharacter found) →
    r.requests.getLast? = some (.error found)

/-- Wherever a program stops that is run from a state, it may stop there. -/
def Settles (s : σ) {α : Type} (f : Machine σ α) (r : Reader σ) : Prop :=
  ∀ out r', f r = some (out, r') → Settled s out r'

namespace Settles

variable {s : σ} {α β : Type} {limit : Option Nat} {left : Nat → Prop} {f : Machine σ α}
  {g : α → Machine σ β} {r : Reader σ} {t : Token}

theorem pure (h : Ready s r) (v : α) : Settles s (Pure.pure v : Machine σ α) r := by
  intro out r' hrun
  cases hrun
  exact ⟨h.orderly, fun _ _ => h, nofun⟩

/-- Stopping at an error of the grammar, from any state that a reader can come to. -/
theorem throw (h : Orderly s r) {e : SyntaxError} (he : ∀ found, e ≠ .unknownCharacter found) :
    Settles s (MonadExcept.throw e : Machine σ α) r := by
  intro out r' hrun
  cases hrun
  refine ⟨h, nofun, fun found hfound => ?_⟩
  exact absurd (Except.error.inj hfound) (he found)

/-- Going on with a value, from wherever the reader has come to with it. -/
theorem bind (hends : Ends limit f r left) (hf : Settles s f r)
    (hg : ∀ v r', left r'.size → Ready s r' → Settles s (g v) r') : Settles s (f >>= g) r := by
  obtain ⟨first, r₁, hfirst, _, hleft⟩ := hends
  have hsettled := hf first r₁ hfirst
  intro out r' hrun
  cases first with
  | error e =>
      cases (bind_of_error hfirst).symm.trans hrun
      refine ⟨hsettled.toOrderly, nofun, fun found hfound => ?_⟩
      exact hsettled.found found (congrArg _ (Except.error.inj hfound))
  | ok v =>
      rw [bind_of_ok hfirst] at hrun
      exact hg v r₁ (hleft v rfl) (hsettled.ready v rfl) out r' hrun

section Tokens

variable {g : Token → Machine σ β}

theorem current_bind (h : Ready s r)
    (hg : ∀ c, r.view = .ok c → Viewing s c.token (r.pulled c) →
      Settles s (g c.token) (r.pulled c)) :
    Settles s (current >>= g) r := by
  intro out r' hrun
  rcases current_eq r with ⟨c, hview, hcurrent⟩ | ⟨found, behind, _, hpending, hnext, hcurrent⟩
  · rw [bind_of_ok hcurrent] at hrun
    exact hg c hview (h.viewing hview) out r' hrun
  · cases (bind_of_error hcurrent).symm.trans hrun
    rcases h with hidle | ⟨t, hviewing⟩
    · refine ⟨hidle.requested hnext, nofun, fun other hother => ?_⟩
      cases hother
      exact List.getLast?_concat
    · rw [hviewing.pending_eq] at hpending
      cases hpending

/-- Passing the token in view, whether or not it is the end of input. -/
theorem advance_bind (h : Ready s r)
    (hg : ∀ c, r.view = .ok c → Viewing s c.token (r.pulled c) →
      Settles s (g c.token) (r.passed c)) :
    Settles s (advance >>= g) r := by
  rw [advance, bind_assoc]
  exact .current_bind h hg

/-- Passing a token in view that is known not to be the end of input. -/
theorem advance_bind_of_viewing (h : Viewing s t r) (hend : t.kind ≠ .endOfInput)
    (hg : ∀ r', r'.size < r.size → Ready s r' → Settles s (g t) r') :
    Settles s (advance >>= g) r := by
  refine .advance_bind (.inr ⟨t, h⟩) fun c hview hviewing => ?_
  obtain ⟨rfl, _⟩ := eq_of_current hview (current_of_pending h.pending_eq)
  exact hg _ (size_passed_lt hview hend) (.inl (hviewing.dropped hend))

end Tokens

/-- Passing a token of a kind other than the end of input, if one is in view. -/
theorem accept_bind {kind : Token.Kind} {g : Option Token → Machine σ β} (h : Ready s r)
    (hkind : kind ≠ .endOfInput) (hsome : ∀ t r', Ready s r' → Settles s (g (some t)) r')
    (hnone : ∀ t r', r'.size = r.size → Viewing s t r' → Settles s (g none) r') :
    Settles s (accept kind >>= g) r := by
  rw [accept_bind_eq]
  refine .current_bind h fun c hview hviewing => ?_
  by_cases heq : c.token.kind = kind
  · rw [if_pos heq]
    exact .advance_bind_of_viewing hviewing (heq ▸ hkind) fun r' _ => hsome _ r'
  · rw [if_neg heq]
    exact hnone _ _ (size_pulled hview) hviewing

/-- Opening an atom, or being refused. -/
theorem attempt_bind (h : Viewing s t r) (hf : Settles s f (r.attempted t).opened) :
    Settles s (attempt limit t >>= fun _ => enclosed f) r := by
  intro out r' hrun
  cases hopen : limit.any (· ≤ r.depth) with
  | true =>
      cases (bind_of_error (attempt_of_refused hopen)).symm.trans hrun
      exact ⟨h.toOrderly.attempted t, nofun, nofun⟩
  | false =>
      rw [bind_of_ok (attempt_of_permitted hopen)] at hrun
      obtain ⟨inner, hinner, rfl⟩ := enclosed_eq_some hrun
      have hsettled := hf out inner hinner
      exact ⟨hsettled.toOrderly.closed, fun v hv => (hsettled.ready v hv).closed, hsettled.found⟩

end Settles

section Procedures

open Grammar

variable {s : σ} {limit : Option Nat} {k : Nat} {r : Reader σ} {t : Token}

def PhraseSettles (s : σ) (limit : Option Nat) (k : Nat) (level : Option Level) : Prop :=
  ∀ r, r.size ≤ k → Ready s r → Settles s (run limit (.phrase level)) r

/-- The loop of a level, by induction on what is left to pass. -/
theorem tail_settles {level : Level} (hatom : PhraseSettles s limit k none)
    (hoperand : PhraseSettles s limit k (stronger? level)) (e : Expr) (r : Reader σ)
    (hr : r.size ≤ k) (h : Ready s r) : Settles s (run limit (.tail level e)) r := by
  induction hn : r.size using Nat.strongRecOn generalizing r e with
  | ind m ih =>
      subst hn
      rw [run]
      refine .current_bind h fun c hview hviewing => ?_
      have hpulled := size_pulled hview
      cases hjoint : level.joint c.token.kind with
      | none => exact .pure (.inr ⟨c.token, hviewing⟩) e
      | operator op =>
          have hend := Level.ne_endOfInput_of_joint hjoint
          refine .advance_bind_of_viewing hviewing hend fun r₁ hlt h₁ => ?_
          refine .bind (phrase_ends_always _ _) (hoperand r₁ (by omega) h₁) fun right r₂ hlt' h₂ => ?_
          exact ih r₂.size (by omega) _ r₂ (by omega) h₂ rfl
      | adjacency =>
          refine .bind (phrase_ends_always _ _) (hatom _ (by omega) (.inr ⟨c.token, hviewing⟩))
            fun right r₁ hlt h₁ => ?_
          exact ih r₁.size (by omega) _ r₁ (by omega) h₁ rfl

/-- Where atoms settle, the phrases of all levels do. -/
theorem phrase_settles (hatom : PhraseSettles s limit k none) (level : Option Level) :
    PhraseSettles s limit k level := by
  induction level using stronger?_induction with
  | atom => exact hatom
  | chain level hoperand =>
      intro r hr h
      rw [run]
      refine .bind (phrase_ends_always _ r) (hoperand r hr h) fun e r₁ hlt h₁ => ?_
      exact tail_settles hatom hoperand e r₁ (by omega) h₁

theorem group_settles (hphrase : PhraseSettles s limit k (some .disjunction))
    (hr : r.size ≤ k + 1) (h : Viewing s t r) (hend : t.kind ≠ .endOfInput) :
    Settles s (run limit .group) r := by
  rw [run]
  refine .advance_bind_of_viewing h hend fun r₁ hlt h₁ => ?_
  refine .bind (phrase_ends_always _ _) (hphrase r₁ (by omega) h₁) fun content r₂ _ h₂ => ?_
  refine .accept_bind h₂ (by simp) (fun _ r₃ h₃ => .pure h₃ content) (fun t₃ r₃ _ h₃ => ?_)
  exact .current_bind (.inr ⟨t₃, h₃⟩) fun c _ hviewing => .throw hviewing.toOrderly (by simp)

/-- The arguments behind other ones, by induction on what is left to pass. -/
theorem arguments_settles (hphrase : PhraseSettles s limit k (some .disjunction))
    (items : List Expr) (r : Reader σ) (hr : r.size ≤ k) (h : Ready s r) :
    Settles s (run limit (.arguments items)) r := by
  induction hn : r.size using Nat.strongRecOn generalizing r items with
  | ind m ih =>
      subst hn
      rw [run]
      refine .bind (phrase_ends_always _ r) (hphrase r hr h) fun argument r₁ hlt h₁ => ?_
      refine .advance_bind h₁ fun c hview hviewing => ?_
      cases hkind : c.token.kind
      case comma =>
        have hend : c.token.kind ≠ .endOfInput := by simp [hkind]
        have hpassed := size_passed_lt hview hend
        exact ih _ (by omega) _ (r₁.passed c) (by omega) (.inl (hviewing.dropped hend)) rfl
      case rightParen => exact .pure (.inl (hviewing.dropped (by simp [hkind]))) _
      all_goals exact .throw hviewing.toOrderly.dropped (by simp)

theorem argumentList_settles (hphrase : PhraseSettles s limit k (some .disjunction))
    (hr : r.size ≤ k) (h : Ready s r) : Settles s (run limit .argumentList) r := by
  rw [run]
  refine .accept_bind h (by simp) (fun _ r₁ h₁ => .pure h₁ []) (fun t₁ r₁ hsize h₁ => ?_)
  exact arguments_settles hphrase [] r₁ (by omega) (.inr ⟨t₁, h₁⟩)

theorem call_settles (hphrase : PhraseSettles s limit k (some .disjunction)) (hr : r.size ≤ k)
    (h : Viewing s t r) (hend : t.kind ≠ .endOfInput) (name : Token) :
    Settles s (run limit (.call name)) r := by
  rw [run]
  cases NamedFunction.ofName? name.text with
  | none => exact .throw h.toOrderly (by simp)
  | some function =>
      refine .advance_bind_of_viewing h hend fun r₁ hlt h₁ => ?_
      have harguments := argumentList_settles hphrase (by omega) h₁
      exact .bind (run_ends limit _ r₁) harguments fun _ r₂ _ h₂ => .pure h₂ _

theorem named_settles (hphrase : PhraseSettles s limit k (some .disjunction))
    (hr : r.size ≤ k + 1) (h : Viewing s t r) (hend : t.kind ≠ .endOfInput) :
    Settles s (run limit .named) r := by
  rw [run]
  refine .advance_bind_of_viewing h hend fun r₁ hlt h₁ => ?_
  rw [see_bind]
  refine .current_bind h₁ fun c hview hviewing => ?_
  have hpulled := size_pulled hview
  by_cases hopen : c.token.kind = .leftParen
  · rw [if_pos (decide_eq_true hopen)]
    exact call_settles hphrase (by omega) hviewing (by simp [hopen]) t
  · rw [if_neg (by simpa using hopen)]
    cases Constant.ofName? t.text with
    | none => exact .throw hviewing.toOrderly (by simp)
    | some constant => exact .pure (.inr ⟨c.token, hviewing⟩) _

theorem number_settles (h : Viewing s t r) (hend : t.kind ≠ .endOfInput) :
    Settles s (run limit .number) r := by
  rw [run]
  refine .advance_bind_of_viewing h hend fun r₁ _ h₁ => ?_
  by_cases hkind : t.kind ∈ Token.Kind.numerals
  · rw [if_pos hkind]
    cases Numeral.read? t.kind t.text.toList with
    | none => exact .throw h₁.orderly (by simp)
    | some literal => exact .pure h₁ _
  · rw [if_neg hkind]
    exact .throw h₁.orderly (by simp)

/-- An atom, from its first token on. -/
theorem atomFrom_settles (hatom : PhraseSettles s limit k none) (hr : r.size ≤ k + 1)
    (h : Viewing s t r) : Settles s (run limit (.atomFrom t)) r := by
  have hphrase := phrase_settles hatom (some .disjunction)
  rw [run]
  cases hkind : t.kind
  case minus =>
    refine .advance_bind_of_viewing h (by simp [hkind]) fun r₁ hlt h₁ => ?_
    exact .bind (phrase_ends_always _ _) (hatom r₁ (by omega) h₁) fun operand r₂ _ h₂ => .pure h₂ _
  case leftParen => exact group_settles hphrase hr h (by simp [hkind])
  case identifier => exact named_settles hphrase hr h (by simp [hkind])
  case intLiteral | floatLiteral | hexLiteral | binLiteral =>
    exact number_settles h (by simp [hkind])
  all_goals exact .throw h.toOrderly (by simp)

/-- The atoms, by induction on what is left to pass. -/
theorem atom_settles (s : σ) (limit : Option Nat) (k : Nat) : PhraseSettles s limit k none := by
  induction k with
  | zero =>
      intro r hr h
      rw [run_atom]
      refine .current_bind h fun c hview _ => ?_
      exact absurd (size_pos hview) (Nat.not_lt.mpr hr)
  | succ k ih =>
      intro r hr h
      rw [run_atom]
      refine .current_bind h fun c hview hviewing => .attempt_bind hviewing ?_
      have hsize : (r.pulled c).size ≤ k + 1 := size_pulled hview ▸ hr
      exact atomFrom_settles ih hsize hviewing.opened

theorem phrase_settles_always (level : Option Level) (h : Ready s r) :
    Settles s (run limit (.phrase level)) r :=
  phrase_settles (atom_settles s limit r.size) level r (Nat.le_refl _) h

end Procedures

end Calculator.Reader
