import Calculator.Proofs.Reader.View

/-!
What the reader keeps. Every procedure comes to an end from every state, whether it succeeds or
fails; it leaves as many atoms open as it found, it has never had more of them open than a limit
allows, and it forgets no attempt.
-/

namespace Calculator.Reader

open Procedure (run)

variable {σ : Type}

/-- What no procedure gives up: the number of open atoms is as it was, it has stayed within the
limit, and the record has only grown. -/
structure Keeps (limit : Option Nat) (r r' : Reader σ) : Prop where
  depth_eq : r'.depth = r.depth
  peak_le : ∀ n, limit = some n → r'.peak ≤ max r.peak n
  attempts : r.attempts <+: r'.attempts

namespace Keeps

variable {limit : Option Nat} {r r' r'' : Reader σ}

theorem of_eq (hdepth : r'.depth = r.depth) (hpeak : r'.peak = r.peak)
    (hattempts : r'.attempts = r.attempts) : Keeps limit r r' :=
  ⟨hdepth, fun n _ => hpeak ▸ Nat.le_max_left _ n, hattempts ▸ List.prefix_refl _⟩

theorem trans (h : Keeps limit r r') (h' : Keeps limit r' r'') : Keeps limit r r'' := by
  refine ⟨h'.depth_eq.trans h.depth_eq, fun n hn => ?_, h.attempts.trans h'.attempts⟩
  have hfirst := h.peak_le n hn
  have hsecond := h'.peak_le n hn
  omega

theorem attempted (limit : Option Nat) (r : Reader σ) (t : Token) :
    Keeps limit r (r.attempted t) :=
  ⟨rfl, fun n _ => Nat.le_max_left r.peak n, List.prefix_append _ _⟩

/-- An atom that may be opened is closed again, whatever is read of it. -/
theorem closed (h : Keeps limit r.opened r') (hopen : limit.any (· ≤ r.depth) = false) :
    Keeps limit r r'.closed := by
  refine ⟨congrArg (· - 1) h.depth_eq, fun n hn => ?_, h.attempts⟩
  subst hn
  have hpeak : r'.peak ≤ max (max r.peak (r.depth + 1)) n := h.peak_le n rfl
  have hdepth : r.depth < n := by simpa using hopen
  change r'.peak ≤ _
  omega

end Keeps

variable [TokenSource σ]

/-- A program comes to an end and keeps what it has to. Where it succeeds, what is left to pass is
of a size that is asked for. -/
def Ends (limit : Option Nat) {α : Type} (f : Machine σ α) (r : Reader σ) (left : Nat → Prop) :
    Prop :=
  ∃ out r', f r = some (out, r') ∧ Keeps limit r r' ∧ ∀ v, out = .ok v → left r'.size

namespace Ends

variable {limit : Option Nat} {α β : Type} {f : Machine σ α} {g : α → Machine σ β}
  {r r' : Reader σ} {left left' : Nat → Prop}

theorem mono (h : Ends limit f r left') (hleft : ∀ n, left' n → left n) : Ends limit f r left := by
  obtain ⟨out, r', hrun, hkeeps, hleft'⟩ := h
  exact ⟨out, r', hrun, hkeeps, fun v hv => hleft _ (hleft' v hv)⟩

theorem pure {v : α} (h : left r.size) : Ends limit (Pure.pure v : Machine σ α) r left :=
  ⟨.ok v, r, rfl, .of_eq rfl rfl rfl, fun _ _ => h⟩

theorem throw {e : SyntaxError} : Ends limit (MonadExcept.throw e : Machine σ α) r left :=
  ⟨.error e, r, rfl, .of_eq rfl rfl rfl, nofun⟩

theorem bind (hf : Ends limit f r left')
    (hg : ∀ v r', Keeps limit r r' → left' r'.size → Ends limit (g v) r' left) :
    Ends limit (f >>= g) r left := by
  obtain ⟨out, r', hrun, hkeeps, hleft⟩ := hf
  cases out with
  | error e => exact ⟨.error e, r', bind_of_error hrun, hkeeps, nofun⟩
  | ok v =>
      obtain ⟨out, r'', hrun', hkeeps', hleft'⟩ := hg v r' hkeeps (hleft v rfl)
      exact ⟨out, r'', (bind_of_ok hrun).trans hrun', hkeeps.trans hkeeps', hleft'⟩

theorem current_bind {g : Token → Machine σ β}
    (hg : ∀ c, r.view = .ok c → Ends limit (g c.token) (r.pulled c) left) :
    Ends limit (current >>= g) r left := by
  rcases current_eq r with ⟨c, hview, hcurrent⟩ | ⟨found, behind, _, _, _, hcurrent⟩
  · obtain ⟨out, r', hrun, hkeeps, hleft⟩ := hg c hview
    have hpulled : Keeps limit r (r.pulled c) := .of_eq rfl rfl rfl
    exact ⟨out, r', (bind_of_ok hcurrent).trans hrun, hpulled.trans hkeeps, hleft⟩
  · exact ⟨_, _, bind_of_error hcurrent, .of_eq rfl rfl rfl, nofun⟩

theorem advance_bind {g : Token → Machine σ β}
    (hg : ∀ c, r.view = .ok c → Ends limit (g c.token) (r.passed c) left) :
    Ends limit (advance >>= g) r left := by
  rw [advance, bind_assoc]
  refine .current_bind fun c hview => ?_
  obtain ⟨out, r', hrun, hkeeps, hleft⟩ := hg c hview
  have hpassed : Keeps limit (r.pulled c) (r.passed c) := .of_eq rfl rfl rfl
  exact ⟨out, r', hrun, hpassed.trans hkeeps, hleft⟩

theorem accept_bind {kind : Token.Kind} {g : Option Token → Machine σ β}
    (hsome : ∀ c, r.view = .ok c → c.token.kind = kind →
      Ends limit (g (some c.token)) (r.passed c) left)
    (hnone : ∀ c, r.view = .ok c → c.token.kind ≠ kind → Ends limit (g none) (r.pulled c) left) :
    Ends limit (accept kind >>= g) r left := by
  rw [accept_bind_eq]
  refine .current_bind fun c hview => ?_
  by_cases hkind : c.token.kind = kind
  · rw [if_pos hkind]
    refine .advance_bind fun c' hview' => ?_
    cases hview'.symm.trans (view_pulled r c)
    exact hsome c hview hkind
  · rw [if_neg hkind]
    exact hnone c hview hkind

/-- An attempt to open an atom either fails or goes on within it. -/
theorem attempt_bind {t : Token}
    (hf : limit.any (· ≤ r.depth) = false → Ends limit f (r.attempted t).opened left) :
    Ends limit (attempt limit t >>= fun _ => enclosed f) r left := by
  have hattempted := Keeps.attempted limit r t
  cases hopen : limit.any (· ≤ r.depth) with
  | true => exact ⟨_, _, bind_of_error (attempt_of_refused hopen), hattempted, nofun⟩
  | false =>
      obtain ⟨out, r', hrun, hkeeps, hleft⟩ := hf hopen
      exact ⟨out, r'.closed, (bind_of_ok (attempt_of_permitted hopen)).trans (enclosed_eq hrun),
        hattempted.trans (hkeeps.closed hopen), hleft⟩

end Ends

section Procedures

variable {limit : Option Nat} {r : Reader σ} {left : Nat → Prop}

def PhraseEnds (limit : Option Nat) (level : Option Level) (r : Reader σ) : Prop :=
  Ends limit (run limit (.phrase level)) r (· < r.size)

/-- The loop of a level, by induction on what is left to pass. -/
theorem tail_ends {k : Nat} {level : Level}
    (hatom : ∀ r : Reader σ, r.size ≤ k → PhraseEnds limit none r)
    (hoperand : ∀ r : Reader σ, r.size ≤ k → PhraseEnds limit (Grammar.stronger? level) r)
    (e : Expr) (r : Reader σ) (hr : r.size ≤ k) :
    Ends limit (run limit (.tail level e)) r (· ≤ r.size) := by
  induction hn : r.size using Nat.strongRecOn generalizing r e with
  | ind m ih =>
      subst hn
      rw [run]
      refine .current_bind fun c hview => ?_
      have hpulled := size_pulled hview
      cases hjoint : level.joint c.token.kind with
      | none => exact .pure (Nat.le_of_eq hpulled)
      | operator op =>
          refine .advance_bind fun c' hview' => ?_
          cases hview'.symm.trans (view_pulled r c)
          have hend := Level.ne_endOfInput_of_joint hjoint
          have hpassed := size_passed_lt (view_pulled r c) hend
          refine .bind (hoperand _ (by omega)) fun right r' _ hr' => ?_
          exact (ih r'.size (by omega) _ r' (by omega) rfl).mono fun n hn => by omega
      | adjacency =>
          refine .bind (hatom _ (by omega)) fun right r' _ hr' => ?_
          exact (ih r'.size (by omega) _ r' (by omega) rfl).mono fun n hn => by omega

theorem chain_ends {k : Nat} {level : Level}
    (hatom : ∀ r : Reader σ, r.size ≤ k → PhraseEnds limit none r)
    (hoperand : ∀ r : Reader σ, r.size ≤ k → PhraseEnds limit (Grammar.stronger? level) r)
    (r : Reader σ) (hr : r.size ≤ k) : PhraseEnds limit (some level) r := by
  rw [PhraseEnds, run]
  refine .bind (hoperand r hr) fun e r' _ hr' => ?_
  exact (tail_ends hatom hoperand e r' (by omega)).mono fun n hn => by omega

/-- Where atoms end, the phrases of all levels end. -/
theorem phrase_ends {k : Nat} (hatom : ∀ r : Reader σ, r.size ≤ k → PhraseEnds limit none r)
    (level : Option Level) : ∀ r : Reader σ, r.size ≤ k → PhraseEnds limit level r := by
  induction level using Grammar.stronger?_induction with
  | atom => exact hatom
  | chain level hoperand => exact chain_ends hatom hoperand

theorem arguments_ends {k : Nat}
    (hphrase : ∀ r : Reader σ, r.size ≤ k → PhraseEnds limit (some .disjunction) r)
    (items : List Expr) (r : Reader σ) (hr : r.size ≤ k) :
    Ends limit (run limit (.arguments items)) r (· < r.size) := by
  induction hn : r.size using Nat.strongRecOn generalizing r items with
  | ind m ih =>
      subst hn
      rw [run]
      refine .bind (hphrase r hr) fun argument r' _ hr' => ?_
      refine .advance_bind fun c hview => ?_
      cases hkind : c.token.kind
      case comma =>
        have hpassed := size_passed_lt hview (by simp [hkind])
        exact (ih _ (by omega) _ (r'.passed c) (by omega) rfl).mono fun n hn => by omega
      case rightParen =>
        have hpassed := size_passed_lt hview (by simp [hkind])
        exact .pure (by omega)
      all_goals exact .throw

theorem argumentList_ends {k : Nat}
    (hphrase : ∀ r : Reader σ, r.size ≤ k → PhraseEnds limit (some .disjunction) r)
    (r : Reader σ) (hr : r.size ≤ k) : Ends limit (run limit .argumentList) r (· < r.size) := by
  rw [run]
  refine .accept_bind (fun c hview hkind => ?_) (fun c hview _ => ?_)
  · exact .pure (size_passed_lt hview (by simp [hkind]))
  · have hpulled := size_pulled hview
    rw [← hpulled]
    exact arguments_ends hphrase [] _ (by omega)

theorem number_ends (hpassed : ∀ c, r.view = .ok c → left (r.passed c).size) :
    Ends limit (run limit .number) r left := by
  rw [run]
  refine .advance_bind fun c hview => ?_
  by_cases hkind : c.token.kind ∈ Token.Kind.numerals
  · rw [if_pos hkind]
    cases Numeral.read? c.token.kind c.token.text.toList with
    | none => exact .throw
    | some literal => exact .pure (hpassed c hview)
  · rw [if_neg hkind]
    exact .throw

/-- Sizes that may be left are such that smaller ones may be left too, and that all phrases and
argument lists end from a state of such a size. -/
structure Within (σ : Type) [TokenSource σ] (limit : Option Nat) (left : Nat → Prop) : Prop where
  of_le : ∀ {m n}, m ≤ n → left n → left m
  phrase : ∀ (level : Option Level) (r : Reader σ), left r.size → PhraseEnds limit level r
  argumentList : ∀ r : Reader σ, left r.size →
    Ends limit (run limit .argumentList) r (· < r.size)

namespace Within

theorem group_ends (h : Within σ limit left)
    (hpassed : ∀ c, r.view = .ok c → left (r.passed c).size) :
    Ends limit (run limit .group) r left := by
  rw [run]
  refine .advance_bind fun c hview => ?_
  refine .bind (h.phrase _ _ (hpassed c hview)) fun content r' _ hr' => ?_
  have hleft : left r'.size := h.of_le (Nat.le_of_lt hr') (hpassed c hview)
  refine .accept_bind (fun c' hview' hkind => ?_) (fun c' _ _ => ?_)
  · have hsize := size_passed_lt hview' (by simp [hkind])
    exact .pure (h.of_le (Nat.le_of_lt hsize) hleft)
  · exact .current_bind fun _ _ => .throw

theorem call_ends (h : Within σ limit left) (name : Token)
    (hpassed : ∀ c, r.view = .ok c → left (r.passed c).size) :
    Ends limit (run limit (.call name)) r left := by
  rw [run]
  cases NamedFunction.ofName? name.text with
  | none => exact .throw
  | some f =>
      refine .advance_bind fun c hview => ?_
      refine .bind (h.argumentList _ (hpassed c hview)) fun arguments r' _ hr' => ?_
      exact .pure (h.of_le (Nat.le_of_lt hr') (hpassed c hview))

theorem named_ends (h : Within σ limit left)
    (hpassed : ∀ c, r.view = .ok c → left (r.passed c).size) :
    Ends limit (run limit .named) r left := by
  rw [run]
  refine .advance_bind fun c hview => ?_
  rw [see_bind]
  refine .current_bind fun c' hview' => ?_
  have hleft : left ((r.passed c).pulled c').size := size_pulled hview' ▸ hpassed c hview
  by_cases hopen : c'.token.kind = .leftParen
  · rw [if_pos (decide_eq_true hopen)]
    refine h.call_ends c.token fun c'' hview'' => ?_
    cases hview''.symm.trans (view_pulled _ c')
    exact h.of_le (Nat.le_of_lt (size_passed_lt hview'' (by simp [hopen]))) hleft
  · rw [if_neg (by simpa using hopen)]
    cases Constant.ofName? c.token.text with
    | none => exact .throw
    | some constant => exact .pure hleft

/-- The rest of an atom ends, if what is left behind its first token may be left. -/
theorem atomFrom_ends (h : Within σ limit left) (t : Token)
    (hpassed : t.kind ≠ .endOfInput → ∀ c, r.view = .ok c → left (r.passed c).size) :
    Ends limit (run limit (.atomFrom t)) r left := by
  rw [run]
  cases hkind : t.kind
  case minus =>
    have hpassed := hpassed (by simp [hkind])
    refine .advance_bind fun c hview => ?_
    refine .bind (h.phrase _ _ (hpassed c hview)) fun operand r' _ hr' => ?_
    exact .pure (h.of_le (Nat.le_of_lt hr') (hpassed c hview))
  case leftParen => exact h.group_ends (hpassed (by simp [hkind]))
  case identifier => exact h.named_ends (hpassed (by simp [hkind]))
  case intLiteral | floatLiteral | hexLiteral | binLiteral =>
    exact number_ends (hpassed (by simp [hkind]))
  all_goals exact .throw

end Within

/-- The atoms, by induction on what is left to pass. -/
theorem atom_ends (k : Nat) : ∀ r : Reader σ, r.size ≤ k → PhraseEnds limit none r := by
  induction k with
  | zero =>
      intro r hr
      rw [PhraseEnds, run]
      refine .current_bind fun c hview => ?_
      exact absurd (size_pos hview) (Nat.not_lt.mpr hr)
  | succ k ih =>
      intro r hr
      have hwithin : Within σ limit (· < r.size) := by
        refine ⟨Nat.lt_of_le_of_lt, fun level r' hr' => ?_, fun r' hr' => ?_⟩
        · exact phrase_ends ih level r' (by omega)
        · exact argumentList_ends (phrase_ends ih _) r' (by omega)
      rw [PhraseEnds, run_atom]
      refine .current_bind fun c hview => .attempt_bind fun _ => ?_
      refine hwithin.atomFrom_ends c.token fun hend c' hview' => ?_
      cases hview'.symm.trans (view_pulled r c)
      exact size_passed_lt hview hend

theorem phrase_ends_always (level : Option Level) (r : Reader σ) : PhraseEnds limit level r :=
  phrase_ends (atom_ends r.size) level r (Nat.le_refl _)

/-- Every procedure comes to an end from every state. -/
theorem run_ends (limit : Option Nat) (p : Procedure) (r : Reader σ) :
    Ends limit (run limit p) r fun _ => True := by
  have hphrase := fun level =>
    show ∀ r' : Reader σ, r'.size ≤ r.size → PhraseEnds limit level r' from
    phrase_ends (atom_ends r.size) level
  have hwithin : Within σ limit fun _ => True :=
    ⟨fun _ _ => trivial, fun level r _ => phrase_ends_always level r,
      fun r _ => argumentList_ends (phrase_ends (atom_ends r.size) _) r (Nat.le_refl _)⟩
  cases p with
  | phrase level => exact (phrase_ends_always level r).mono fun _ _ => trivial
  | tail level e =>
      exact (tail_ends (hphrase none) (hphrase _) e r (Nat.le_refl _)).mono fun _ _ => trivial
  | atomFrom t => exact hwithin.atomFrom_ends t fun _ _ _ => trivial
  | group => exact hwithin.group_ends fun _ _ => trivial
  | named => exact hwithin.named_ends fun _ _ => trivial
  | call name => exact hwithin.call_ends name fun _ _ => trivial
  | argumentList => exact (hwithin.argumentList r trivial).mono fun _ _ => trivial
  | arguments items =>
      exact (arguments_ends (hphrase _) items r (Nat.le_refl _)).mono fun _ _ => trivial
  | number => exact number_ends fun _ _ => trivial

end Procedures

end Calculator.Reader
