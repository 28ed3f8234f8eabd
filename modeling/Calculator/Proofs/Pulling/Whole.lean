import Calculator.Proofs.Nesting.Limit
import Calculator.Proofs.Pulling.Requests

/-!
Reading a whole supply on demand. The answer is the one of the parser on the list of the items that
are left, however many of them were asked for beforehand and in whichever way.
-/

namespace Calculator.Reader

variable {σ : Type} [TokenSource σ]

theorem ofSource_idle (s : σ) : Idle s (ofSource s) :=
  ⟨⟨.start, Nat.zero_le 1, nofun⟩, rfl, nofun⟩

theorem whole_settles (limit : Option Nat) (s : σ) : Settles s (whole limit) (ofSource s) := by
  have hready : Ready s (ofSource s) := .inl (ofSource_idle s)
  refine .bind (run_ends limit _ _) (phrase_settles_always _ hready) fun e r _ h => ?_
  refine .current_bind h fun c _ hviewing => ?_
  by_cases hend : c.token.kind = .endOfInput
  · rw [if_pos hend]
    exact .pure (.inr ⟨c.token, hviewing⟩) e
  · rw [if_neg hend]
    exact .throw hviewing.toOrderly (by simp)

/-- The token that was looked at is the next one to be passed. -/
theorem head?_of_current {t : Token} {r r' : Reader σ} (h : current r = some (.ok t, r')) :
    r'.pending.head? = some t := by
  rcases current_eq r with ⟨c, _, hcurrent⟩ | ⟨_, _, _, _, _, hcurrent⟩
  · cases hcurrent.symm.trans h
    rfl
  · cases hcurrent.symm.trans h

/-- Where an expression was read, the end of input is in view. -/
theorem head?_of_whole {limit : Option Nat} {r r' : Reader σ} {e : Expr}
    (h : whole limit r = some (.ok e, r')) :
    ∃ t, r'.pending.head? = some t ∧ t.kind = .endOfInput := by
  rcases bind_eq_some h with ⟨_, _, hfailed⟩ | ⟨e', r₁, _, hrest⟩
  · cases hfailed
  · rcases bind_eq_some hrest with ⟨_, _, hfailed⟩ | ⟨t, r₂, hcurrent, hchecked⟩
    · cases hfailed
    · by_cases hend : t.kind = .endOfInput
      · rw [if_pos hend] at hchecked
        cases hchecked
        exact ⟨t, head?_of_current hcurrent, hend⟩
      · rw [if_neg hend] at hchecked
        cases hchecked

/-- The reader with the limit is the parser, and stops as it should. -/
theorem exists_whole_eq_ofTokens (s : σ) :
    ∃ final, whole (some Expr.nestingLimit) (ofSource s) = some (Expr.ofTokens s, final) ∧
      Settled s (Expr.ofTokens s) final ∧
      ∀ e, Expr.ofTokens s = .ok e →
        ∃ t, final.requests.getLast? = some (.ok t) ∧ t.kind = .endOfInput := by
  obtain ⟨out, final, hrun, _, _, hout⟩ := exists_whole_eq (n := Expr.nestingLimit) (.inr rfl) s
  have hanswer : out = Expr.ofTokens s := hout rfl
  subst hanswer
  have hsettled := whole_settles _ s _ _ hrun
  refine ⟨final, hrun, hsettled, fun e he => ?_⟩
  obtain ⟨t, hhead, hend⟩ := head?_of_whole (he ▸ hrun)
  rcases hsettled.ready e he with hidle | ⟨t', hviewing⟩
  · rw [hidle.pending_eq] at hhead
    cases hhead
  · rw [hviewing.pending_eq] at hhead
    cases hhead
    exact ⟨t, hviewing.getLast?_eq, hend⟩

/-- Reading on from a scanner that was asked for items before, in either way and however often. The
calls answered with the items in their order, and behind the last one with the end of input or with
nothing. What is read on demand is what the parser reads from the list of the items that are left.
On the way these are requested one after another and none of them twice, no more than one token is
pending at a time, and nothing is requested behind an unknown character or the end of input. So all
items that are left are tokens if an expression is read, and the unknown character of an error is
the first one among them. -/
theorem whole_eq_ofTokens_behind (source : String) (calls : List Scanner.Ask) :
    let list := (Scanner.ofString source).itemList
    let asked := (Scanner.ofString source).askAll calls
    let left := list.behind calls.length
    asked.1 = calls.mapIdx (fun earlier call => call.answer list earlier) ∧
    Expr.ofTokens asked.2 = Expr.ofTokens left ∧
    ∃ final, whole (some 128) (ofSource asked.2) = some (Expr.ofTokens left, final) ∧
      Supplies asked.2 final.requests final.source ∧ final.requests <+: left.toList ∧
      (∀ item ∈ final.requests.dropLast, ∃ t : Token, item = .ok t ∧ t.kind ≠ .endOfInput) ∧
      final.longest ≤ 1 ∧
      (∀ e, Expr.ofTokens left = .ok e → ∃ tokens : List Token, left.items = tokens.map .ok) ∧
      ∀ found, Expr.ofTokens left = .error (.unknownCharacter found) →
        ∃ (tokens : List Token) (more : List Item),
          left.items = tokens.map .ok ++ .error found :: more := by
  intro list asked left
  obtain ⟨hanswers, hleft⟩ := (Scanner.ofString source).askAll_eq calls
  have hleft : asked.2.itemList = left := hleft
  have hparse : Expr.ofTokens asked.2 = Expr.ofTokens left := by
    rw [← Expr.ofTokens_itemList, hleft]
  obtain ⟨final, hwhole, hsettled, hend⟩ := exists_whole_eq_ofTokens asked.2
  obtain ⟨tokens, htokens⟩ := Item.exists_tokens_of_passable hsettled.passable
  rw [hparse] at hwhole hsettled hend
  refine ⟨hanswers, hparse, final, hwhole, hsettled.supplies, ?_, hsettled.passable,
    hsettled.longest_le, ?_, ?_⟩
  · rw [← hleft]
    exact Scanner.prefix_of_supplies hsettled.supplies hsettled.passable
  · intro e he
    obtain ⟨t, hlast, hkind⟩ := hend e he
    refine ⟨tokens, ?_⟩
    rw [← htokens, ← hleft]
    exact Scanner.items_of_supplies_end hsettled.supplies hsettled.passable hlast hkind
  · intro found hfound
    obtain ⟨more, hitems⟩ := Scanner.items_of_supplies_error hsettled.supplies hsettled.passable
      (hsettled.found found hfound)
    refine ⟨tokens, more, ?_⟩
    rw [← htokens, ← hleft]
    exact hitems

end Calculator.Reader
