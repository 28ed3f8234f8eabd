import Calculator.Proofs.Grammar.Reading
import Calculator.Proofs.Lookahead.Program
import Calculator.Proofs.Reader.Counting

/-!
The counting reader against the parser that is told its room. As long as no atom is opened where as
many are open as the parser has room for in all, both give the same answer, whether the reader has
a limit or not; where one is, the parser finds the nesting too deep at its first token.
-/

namespace Calculator.Reader

open Calculator.Parser Reading Grammar
open Procedure (run)

variable {σ : Type} [TokenSource σ]

def firstDeep (n : Nat) (attempts : List Attempt) : Option Attempt :=
  attempts.find? (n ≤ ·.depth)

theorem firstDeep_append (n : Nat) (first second : List Attempt) :
    firstDeep n (first ++ second) = (firstDeep n first).or (firstDeep n second) :=
  List.find?_append

/-- The answer of a program, with the limit `n` or without one, against the result `x` of a reading
that is told the room. -/
def Agrees (n : Nat) (limit : Option Nat) {α : Type} (f : Machine σ α) (r : Reader σ)
    (x : Except SyntaxError (α × Cursor (Queue σ))) : Prop :=
  ∀ out r', f r = some (out, r') → ∃ new, r'.attempts = r.attempts ++ new ∧
    match firstDeep n new with
    | none => x = out >>= fun v => r'.view >>= fun c => .ok (v, c)
    | some a => x = .error (.nestingTooDeep a.token.line) ∧
        (limit = some n → out = .error (.nestingTooDeep a.token.line))

theorem view_passed (r : Reader σ) (c : Cursor (Queue σ)) :
    (r.passed c).view = (Cursor.ofSource c.source).map Subtype.val :=
  rfl

/-- Before the end of input, passing the token in view is going on with what is in view then. -/
theorem of_token_bind {β : Type} (r : Reader σ) {c : Cursor (Queue σ)}
    (hend : c.token.kind ≠ .endOfInput) (k : Token → Reading (Queue σ) β) :
    (of Parser.token >>= k) c = (r.passed c).view >>= k c.token := by
  change (of Parser.token c >>= fun result => k result.1 result.2) = _
  rw [of, Parser.token, dif_neg hend, view_passed]
  cases Cursor.ofSource c.source <;> rfl

namespace Agrees

variable {n : Nat} {limit : Option Nat} {α β : Type} {f : Machine σ α} {g : α → Machine σ β}
  {r : Reader σ} {c : Cursor (Queue σ)} {x : Except SyntaxError (β × Cursor (Queue σ))}
  {p : Reading (Queue σ) α} {k : α → Reading (Queue σ) β}

theorem pure (v : α) :
    Agrees n limit (Pure.pure v : Machine σ α) r (r.view >>= (Pure.pure v : Reading _ α)) := by
  intro out r' hrun
  cases hrun
  exact ⟨[], (List.append_nil _).symm, rfl⟩

theorem throw (e : SyntaxError) :
    Agrees n limit (MonadExcept.throw e : Machine σ α) r (.error e) := by
  intro out r' hrun
  cases hrun
  exact ⟨[], (List.append_nil _).symm, rfl⟩

/-- A program that does not touch the record before it goes on. -/
theorem of_run_eq {f : Machine σ α} {g : Machine σ α} {r' : Reader σ}
    {x : Except SyntaxError (α × Cursor (Queue σ))} (h : f r = g r')
    (hattempts : r'.attempts = r.attempts) (hg : Agrees n limit g r' x) :
    Agrees n limit f r x := by
  intro out r'' hrun
  rw [← hattempts]
  exact hg out r'' (h ▸ hrun)

/-- Going on with the value of a program, where the reading goes on with its own. -/
theorem bind_of_result {left : Nat → Prop} {x : Except SyntaxError (α × Cursor (Queue σ))}
    (hends : Ends limit f r left) (hf : Agrees n limit f r x)
    (hg : ∀ v r', Keeps limit r r' → left r'.size → Agrees n limit (g v) r' (r'.view >>= k v)) :
    Agrees n limit (f >>= g) r (x >>= fun result => k result.1 result.2) := by
  obtain ⟨first, r₁, hfirst, hkeeps, hleft⟩ := hends
  obtain ⟨new, hnew, hverdict⟩ := hf first r₁ hfirst
  cases first with
  | error e =>
      intro out r' hrun
      cases (bind_of_error hfirst).symm.trans hrun
      refine ⟨new, hnew, ?_⟩
      cases hdeep : firstDeep n new with
      | none =>
          rw [hdeep] at hverdict
          rw [hverdict]
          rfl
      | some a =>
          rw [hdeep] at hverdict
          rw [hverdict.1]
          exact ⟨rfl, fun hlimit => congrArg _ (Except.error.inj (hverdict.2 hlimit))⟩
  | ok v =>
      intro out r' hrun
      obtain ⟨new', hnew', hverdict'⟩ :=
        hg v r₁ hkeeps (hleft v rfl) out r' ((bind_of_ok hfirst).symm.trans hrun)
      refine ⟨new ++ new', by rw [hnew', hnew, List.append_assoc], ?_⟩
      rw [firstDeep_append]
      cases hdeep : firstDeep n new with
      | none =>
          rw [hdeep] at hverdict
          have hsame : (x >>= fun result => k result.1 result.2) = r₁.view >>= k v := by
            rw [hverdict]
            cases r₁.view <;> rfl
          rw [hsame]
          exact hverdict'
      | some a =>
          rw [hdeep] at hverdict
          rw [hverdict.1]
          exact ⟨rfl, fun hlimit => nomatch hverdict.2 hlimit⟩

theorem bind_at {left : Nat → Prop} (hends : Ends limit f r left)
    (hf : Agrees n limit f r (p c))
    (hg : ∀ v r', Keeps limit r r' → left r'.size → Agrees n limit (g v) r' (r'.view >>= k v)) :
    Agrees n limit (f >>= g) r ((p >>= k) c) :=
  bind_of_result hends hf hg

theorem bind {left : Nat → Prop} (hends : Ends limit f r left)
    (hf : Agrees n limit f r (r.view >>= p))
    (hg : ∀ v r', Keeps limit r r' → left r'.size → Agrees n limit (g v) r' (r'.view >>= k v)) :
    Agrees n limit (f >>= g) r (r.view >>= (p >>= k)) := by
  have hassoc : r.view >>= (p >>= k) = (r.view >>= p) >>= fun result => k result.1 result.2 := by
    cases r.view <;> rfl
  rw [hassoc]
  exact bind_of_result hends hf hg

theorem pure_of_view (h : r.view = .ok c) (v : α) :
    Agrees n limit (Pure.pure v : Machine σ α) r ((Pure.pure v : Reading _ α) c) := by
  have hpure : Agrees n limit (Pure.pure v : Machine σ α) r
      (r.view >>= (Pure.pure v : Reading _ α)) := pure v
  rwa [h] at hpure

theorem current_bind {g : Token → Machine σ β} {p : Reading (Queue σ) β}
    (hg : ∀ c, r.view = .ok c → Agrees n limit (g c.token) (r.pulled c) (p c)) :
    Agrees n limit (current >>= g) r (r.view >>= p) := by
  rcases current_eq r with ⟨c, hview, hcurrent⟩ | ⟨found, behind, hview, _, _, hcurrent⟩
  · rw [hview]
    exact of_run_eq (bind_of_ok hcurrent) rfl (hg c hview)
  · rw [hview]
    exact of_run_eq (g := MonadExcept.throw _) (bind_of_error hcurrent) rfl (.throw _)

theorem current_bind_of_view {g : Token → Machine σ β} (h : r.view = .ok c)
    (hg : Agrees n limit (g c.token) (r.pulled c) x) : Agrees n limit (current >>= g) r x :=
  of_run_eq (bind_of_ok (current_of_view_ok h)) rfl hg

theorem advance_bind_of_view {g : Token → Machine σ β} (h : r.view = .ok c)
    (hg : Agrees n limit (g c.token) (r.passed c) x) : Agrees n limit (advance >>= g) r x :=
  of_run_eq (bind_of_ok (advance_of_view_ok h)) rfl hg

theorem advance_bind {g : Token → Machine σ β} {p : Reading (Queue σ) β}
    (hg : ∀ c, r.view = .ok c → Agrees n limit (g c.token) (r.passed c) (p c)) :
    Agrees n limit (advance >>= g) r (r.view >>= p) := by
  rw [advance, bind_assoc]
  exact .current_bind fun c hview => of_run_eq rfl rfl (hg c hview)

theorem accept_bind {kind : Token.Kind} {g : Option Token → Machine σ β}
    {p : Reading (Queue σ) β}
    (hsome : ∀ c, c.token.kind = kind → Agrees n limit (g (some c.token)) (r.passed c) (p c))
    (hnone : ∀ c, c.token.kind ≠ kind → Agrees n limit (g none) (r.pulled c) (p c)) :
    Agrees n limit (accept kind >>= g) r (r.view >>= p) := by
  rw [accept_bind_eq]
  refine .current_bind fun c hview => ?_
  by_cases hkind : c.token.kind = kind
  · rw [if_pos hkind]
    exact .advance_bind_of_view (view_pulled r c) (hsome c hkind)
  · rw [if_neg hkind]
    exact hnone c hkind

end Agrees

section Procedures

variable {n d : Nat} {limit : Option Nat}

/-- That the reader agrees, on the phrases of a level, with the parser that has room for the atoms
that may still be opened where `d` of them are open. -/
def PhraseAgrees (σ : Type) [TokenSource σ] (n : Nat) (limit : Option Nat) (d : Nat)
    (level : Option Level) : Prop :=
  ∀ r : Reader σ, r.depth = d → Agrees n limit (run limit (.phrase level)) r
    (r.view >>= of (phraseParser (atom (n - d)) level))

/-- The loop of a level, by induction on what is left to pass. -/
theorem tail_agrees {level : Level} (hatom : PhraseAgrees σ n limit d none)
    (hoperand : PhraseAgrees σ n limit d (stronger? level)) (e : Expr) (r : Reader σ)
    (hr : r.depth = d) :
    Agrees n limit (run limit (.tail level e)) r (r.view >>=
      Reading.tail level (atom (n - d)) (phraseParser (atom (n - d)) (stronger? level)) e) := by
  induction hn : r.size using Nat.strongRecOn generalizing r e with
  | ind m ih =>
      subst hn
      rw [run, tail_eq]
      refine .current_bind fun c hview => ?_
      have hpulled := size_pulled hview
      rw [peek_bind_apply]
      cases hjoint : level.joint c.token.kind with
      | none => exact .pure_of_view (view_pulled r c) e
      | operator op =>
          have hend := Level.ne_endOfInput_of_joint hjoint
          have hpassed := size_passed_lt hview hend
          refine .advance_bind_of_view (view_pulled r c) ?_
          dsimp only
          rw [of_token_bind (r.pulled c) hend]
          refine .bind (phrase_ends_always _ _) (hoperand _ hr) fun right r' hkeeps hr' => ?_
          have hlt : r'.size < r.size := Nat.lt_trans hr' hpassed
          exact ih r'.size hlt _ r' (hkeeps.depth_eq.trans hr) rfl
      | adjacency =>
          have hright := hatom (r.pulled c) hr
          rw [view_pulled] at hright
          dsimp only
          refine .bind_at (phrase_ends_always _ _) hright fun right r' hkeeps hr' => ?_
          exact ih r'.size (hpulled ▸ hr') _ r' (hkeeps.depth_eq.trans hr) rfl

theorem chain_agrees {level : Level} (hatom : PhraseAgrees σ n limit d none)
    (hoperand : PhraseAgrees σ n limit d (stronger? level)) :
    PhraseAgrees σ n limit d (some level) := by
  intro r hr
  rw [run, phraseParser_some, of_chain]
  refine .bind (phrase_ends_always _ r) (hoperand r hr) fun e r' hkeeps _ => ?_
  exact tail_agrees hatom hoperand e r' (hkeeps.depth_eq.trans hr)

/-- Where atoms agree, the phrases of all levels agree. -/
theorem phrase_agrees (hatom : PhraseAgrees σ n limit d none) (level : Option Level) :
    PhraseAgrees σ n limit d level := by
  induction level using stronger?_induction with
  | atom => exact hatom
  | chain level hoperand => exact chain_agrees hatom hoperand

variable {r : Reader σ} {c : Cursor (Queue σ)}

theorem group_agrees (hphrase : PhraseAgrees σ n limit d (some .disjunction)) (hr : r.depth = d)
    (hview : r.view = .ok c) (opens : c.token.kind = .leftParen) :
    Agrees n limit (run limit .group) r (of (group (expression (atom (n - d)))) c) := by
  rw [run, of_group]
  refine .advance_bind_of_view hview ?_
  rw [of_token_bind r (by simp [opens])]
  refine .bind (phrase_ends_always _ _) (hphrase _ hr) fun content r' _ _ => ?_
  refine .accept_bind (fun c' closes => ?_) (fun c' hopen => ?_)
  · rw [peek_bind_apply, if_pos closes, of_token_bind r' (by simp [closes])]
    exact .pure content
  · rw [peek_bind_apply, if_neg hopen]
    exact .current_bind_of_view (view_pulled r' c') (.throw _)

/-- The arguments behind other ones, by induction on what is left to pass. -/
theorem arguments_agrees (hphrase : PhraseAgrees σ n limit d (some .disjunction))
    (items : List Expr) (r : Reader σ) (hr : r.depth = d) :
    Agrees n limit (run limit (.arguments items)) r (r.view >>= (do
      let others ← of (arguments (expression (atom (n - d))))
      return items ++ others : Reading (Queue σ) (List Expr))) := by
  induction hn : r.size using Nat.strongRecOn generalizing r items with
  | ind m ih =>
      subst hn
      rw [run, of_arguments, bind_assoc]
      refine .bind (phrase_ends_always _ r) (hphrase r hr) fun argument r' hkeeps hr' => ?_
      have hdepth : r'.depth = d := hkeeps.depth_eq.trans hr
      rw [bind_assoc]
      refine .advance_bind fun c hview => ?_
      rw [peek_bind_apply]
      cases hkind : c.token.kind
      case comma =>
        have hend : c.token.kind ≠ .endOfInput := by simp [hkind]
        have hpassed := size_passed_lt hview hend
        have hothers := ih (r'.passed c).size (Nat.lt_trans hpassed hr') (items ++ [argument])
          (r'.passed c) hdepth rfl
        simp only [bind_assoc, pure_bind]
        rw [of_token_bind r' hend]
        simp only [List.append_assoc] at hothers
        exact hothers
      case rightParen =>
        simp only [bind_assoc, pure_bind]
        rw [of_token_bind r' (by simp [hkind])]
        exact .pure (items ++ [argument])
      all_goals exact .throw _

theorem argumentList_agrees (hphrase : PhraseAgrees σ n limit d (some .disjunction))
    (hr : r.depth = d) (opens : c.token.kind = .leftParen) :
    Agrees n limit (run limit .argumentList) (r.passed c)
      (of (argumentList (expression (atom (n - d)))) c) := by
  rw [run, of_argumentList, of_token_bind r (by simp [opens])]
  refine .accept_bind (fun c' closes => ?_) (fun c' hopen => ?_)
  · rw [peek_bind_apply, if_pos closes, of_token_bind _ (by simp [closes])]
    exact .pure []
  · rw [peek_bind_apply, if_neg hopen]
    have harguments := arguments_agrees hphrase [] ((r.passed c).pulled c') hr
    rw [view_pulled] at harguments
    rw [← bind_pure (of (arguments (expression (atom (n - d)))))]
    exact harguments

/-- A name, from its token on. -/
theorem named_agrees (hphrase : PhraseAgrees σ n limit d (some .disjunction)) (hr : r.depth = d)
    (hview : r.view = .ok c) (identifier : c.token.kind = .identifier) :
    Agrees n limit (run limit .named) r (of (named (expression (atom (n - d)))) c) := by
  rw [run, of_named]
  refine .advance_bind_of_view hview ?_
  rw [peek_bind_apply, of_token_bind r (by simp [identifier])]
  rw [see_bind]
  refine .current_bind fun c' hview' => ?_
  rw [peek_bind_apply]
  by_cases hopen : c'.token.kind = .leftParen
  · rw [if_pos (decide_eq_true hopen), if_pos hopen, run]
    cases NamedFunction.ofName? c.token.text with
    | none => exact .throw _
    | some f =>
        refine .advance_bind_of_view (view_pulled _ c') ?_
        have hlist := argumentList_agrees (r := r.passed c) hphrase hr hopen
        exact .bind_at (run_ends limit _ _) hlist fun arguments r' _ _ => .pure _
  · rw [if_neg (by simpa using hopen), if_neg hopen]
    cases Constant.ofName? c.token.text with
    | none => exact .throw _
    | some constant => exact .pure_of_view (view_pulled _ c') _

theorem number_agrees (hview : r.view = .ok c)
    (numeral : c.token.kind ∈ Token.Kind.numerals) :
    Agrees n limit (run limit .number) r (of (Parser.number) c) := by
  rw [run, of_number]
  refine .advance_bind_of_view hview ?_
  rw [peek_bind_apply, if_pos numeral, if_pos numeral]
  cases Numeral.read? c.token.kind c.token.text.toList with
  | none => exact .throw _
  | some literal =>
      have hend : c.token.kind ≠ .endOfInput := by
        intro hend
        simp [hend] at numeral
      dsimp only
      rw [of_token_bind r hend]
      exact .pure _

/-- An atom, from its first token on. -/
theorem atomFrom_agrees (hatom : PhraseAgrees σ n limit d none) (hr : r.depth = d)
    (hview : r.view = .ok c) : Agrees n limit (run limit (.atomFrom c.token)) r
      (of (atomOver (atom (n - d))) c) := by
  have hphrase := phrase_agrees hatom (some .disjunction)
  rw [run, of_atomOver, peek_bind_apply]
  cases hkind : c.token.kind
  case minus =>
    dsimp only
    rw [of_negation, peek_bind_apply, of_token_bind r (by simp [hkind])]
    refine .advance_bind_of_view hview ?_
    exact .bind (phrase_ends_always _ _) (hatom _ hr) fun operand r' _ _ => .pure _
  case leftParen => exact group_agrees hphrase hr hview hkind
  case identifier => exact named_agrees hphrase hr hview hkind
  case intLiteral | floatLiteral | hexLiteral | binLiteral =>
    exact number_agrees hview (by simp [hkind])
  all_goals exact .throw _

end Procedures

/-- An attempt that is not the first deep one does not change which one that is. -/
theorem firstDeep_cons_of_lt {n : Nat} {a : Attempt} (h : a.depth < n) (others : List Attempt) :
    firstDeep n (a :: others) = firstDeep n others :=
  List.find?_cons_of_neg (by simpa using h)

theorem firstDeep_cons_of_le {n : Nat} {a : Attempt} (h : n ≤ a.depth) (others : List Attempt) :
    firstDeep n (a :: others) = some a :=
  List.find?_cons_of_pos (by simpa using h)

section Opening

variable {n : Nat} {limit : Option Nat} {r : Reader σ} {t : Token} {f : Machine σ Expr}
  {x : Except SyntaxError (Expr × Cursor (Queue σ))}

/-- Where there is room for an atom, what is read within it decides. -/
theorem Agrees.attempt_bind (hlimit : limit = none ∨ limit = some n) (hdepth : r.depth < n)
    (hends : Ends limit f (r.attempted t).opened fun _ => True)
    (hf : Agrees n limit f (r.attempted t).opened x) :
    Agrees n limit (attempt limit t >>= fun _ => enclosed f) r x := by
  have hopen : limit.any (· ≤ r.depth) = false := by
    rcases hlimit with rfl | rfl
    · rfl
    · simpa using hdepth
  intro out r' hrun
  obtain ⟨out', r'', hinner, _, _⟩ := hends
  cases ((bind_of_ok (attempt_of_permitted hopen)).trans (enclosed_eq hinner)).symm.trans hrun
  obtain ⟨new, hnew, hverdict⟩ := hf _ _ hinner
  refine ⟨⟨t, r.depth⟩ :: new, ?_, ?_⟩
  · exact hnew.trans (List.append_assoc ..)
  · rw [firstDeep_cons_of_lt hdepth]
    exact hverdict

/-- Where there is no room for an atom, the attempt to open it is the first deep one. -/
theorem Agrees.attempt_bind_of_le (hlimit : limit = none ∨ limit = some n) (hdepth : n ≤ r.depth)
    (hends : Ends limit f (r.attempted t).opened fun _ => True) :
    Agrees n limit (attempt limit t >>= fun _ => enclosed f) r
      (.error (.nestingTooDeep t.line)) := by
  intro out r' hrun
  rcases hlimit with rfl | rfl
  · obtain ⟨out', r'', hinner, hkeeps, _⟩ := hends
    have hopen : (none : Option Nat).any (· ≤ r.depth) = false := rfl
    cases ((bind_of_ok (attempt_of_permitted hopen)).trans (enclosed_eq hinner)).symm.trans hrun
    obtain ⟨new, hnew⟩ := hkeeps.attempts
    refine ⟨⟨t, r.depth⟩ :: new, ?_, ?_⟩
    · exact hnew.symm.trans (List.append_assoc ..)
    · rw [firstDeep_cons_of_le hdepth]
      exact ⟨rfl, nofun⟩
  · have hrefused : (some n).any (· ≤ r.depth) = true := by simpa using hdepth
    cases (bind_of_error (attempt_of_refused hrefused)).symm.trans hrun
    refine ⟨[⟨t, r.depth⟩], rfl, ?_⟩
    rw [firstDeep_cons_of_le hdepth]
    exact ⟨rfl, fun _ => rfl⟩

end Opening

/-- The atoms, by induction on the room that is left. -/
theorem atom_agrees {n : Nat} {limit : Option Nat} (hlimit : limit = none ∨ limit = some n)
    (d : Nat) : PhraseAgrees σ n limit d none := by
  induction hroom : n - d generalizing d with
  | zero =>
      intro r hr
      rw [run_atom, hroom]
      refine .current_bind fun c hview => ?_
      exact .attempt_bind_of_le hlimit (hr ▸ Nat.sub_eq_zero_iff_le.mp hroom) (run_ends ..)
  | succ room ih =>
      have hinner := ih (d + 1) (by omega)
      intro r hr
      rw [run_atom, hroom]
      refine .current_bind fun c hview => ?_
      refine .attempt_bind hlimit (show r.depth < n by omega) (run_ends ..) ?_
      have hdepth : ((r.pulled c).attempted c.token).opened.depth = d + 1 :=
        congrArg (· + 1) hr
      have hatom := atomFrom_agrees hinner hdepth (view_pulled r c)
      rw [show n - (d + 1) = room by omega] at hatom
      exact hatom

end Calculator.Reader
