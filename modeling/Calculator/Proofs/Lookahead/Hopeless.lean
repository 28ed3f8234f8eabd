import Calculator.Parser.Transport
import Calculator.Proofs.Grammar.Acceptance
import Calculator.Proofs.Grammar.Relocation
import Calculator.Proofs.Writing.RoundTrip

/-!
Errors about the grammar are raised at the first hopeless token. The tokens in front of it begin
some text that is accepted, no accepted text begins with them and it, and every text that begins
like that is rejected with the same error.
-/

namespace Calculator

open Grammar

namespace ItemList

def ofTokens (tokens : List Token) (finish : Position) : ItemList :=
  ⟨tokens.map .ok, finish⟩

theorem toList_ofTokens (tokens : List Token) (finish : Position) :
    (ofTokens tokens finish).toList = (tokens ++ [Token.endOfInput finish]).map .ok := by
  rw [List.map_append]
  rfl

/-- The tokens come first among the items, the end of input included. -/
def StartsWith (l : ItemList) (tokens : List Token) : Prop :=
  tokens.map Except.ok <+: l.toList

theorem startsWith_next {l : ItemList} {t : Token} (h : l.next.1 = .ok t) : l.StartsWith [t] := by
  obtain ⟨items, finish⟩ := l
  cases items with
  | nil =>
      cases h
      exact List.prefix_refl _
  | cons item rest =>
      cases h
      exact ⟨rest ++ [.ok (.endOfInput finish)], rfl⟩

theorem StartsWith.next_eq {l : ItemList} {t : Token} {tokens : List Token}
    (h : l.StartsWith (t :: tokens)) : l.next = (.ok t, l.next.2) := by
  obtain ⟨items, finish⟩ := l
  obtain ⟨others, hothers⟩ := h
  cases items with
  | nil => exact Prod.ext (List.cons.inj hothers).1.symm rfl
  | cons item rest => exact Prod.ext (List.cons.inj hothers).1.symm rfl

theorem StartsWith.ok_mem_items {l : ItemList} {tokens : List Token} (h : l.StartsWith tokens)
    {t : Token} (ht : t ∈ tokens) (hend : t.kind ≠ .endOfInput) : .ok t ∈ l.items := by
  have hmem : .ok t ∈ l.toList := h.subset (List.mem_map_of_mem ht)
  rcases List.mem_append.mp hmem with hmem | hmem
  · exact hmem
  · rw [List.mem_singleton, Except.ok.injEq] at hmem
    exact absurd (congrArg Token.kind hmem) hend

/-- Behind a token the next ones come first among the items that are left. -/
theorem startsWith_cons_iff {l behind : ItemList} {t : Token} {tokens : List Token}
    (hnext : l.next = (.ok t, behind)) (hend : t.kind ≠ .endOfInput) :
    l.StartsWith (t :: tokens) ↔ behind.StartsWith tokens := by
  obtain ⟨items, finish⟩ := l
  cases items with
  | nil =>
      cases hnext
      exact absurd rfl hend
  | cons item rest =>
      cases hnext
      exact List.prefix_cons_inj _

/-- What a reader has passed and what it has in view come first among the items. -/
theorem startsWith_of_passes {c stop : Cursor ItemList} {read : List Token}
    (h : c.Passes read stop) {l : ItemList} (hnext : l.next = (.ok c.token, c.source)) :
    l.StartsWith (read ++ [stop.token]) := by
  induction h generalizing l with
  | here c => exact startsWith_next (congrArg Prod.fst hnext)
  | token first _ ih =>
      obtain ⟨hend, _, hbehind⟩ := Reading.of_token_eq_ok first
      exact (startsWith_cons_iff hnext hend).mpr (ih hbehind)

/-- A reader can pass tokens that come first among the items, up to the last one of them. -/
theorem StartsWith.exists_passes {read : List Token} {t : Token} {l : ItemList}
    (h : l.StartsWith (read ++ [t])) (hread : ∀ u ∈ read, u.kind ≠ .endOfInput) :
    ∃ c stop : Cursor ItemList, l.next = (.ok c.token, c.source) ∧ c.Passes read stop ∧
      stop.token = t := by
  induction read generalizing l with
  | nil => exact ⟨⟨t, l.next.2⟩, _, h.next_eq, .here _, rfl⟩
  | cons u read ih =>
      have hnext : l.next = (.ok u, l.next.2) := h.next_eq
      have hend : u.kind ≠ .endOfInput := hread u List.mem_cons_self
      obtain ⟨c, stop, hc, hpasses, hstop⟩ := ih ((startsWith_cons_iff hnext hend).mp h)
        fun v hv => hread v (List.mem_cons_of_mem u hv)
      have hbehind : TokenSource.next (Cursor.mk u l.next.2).source = (.ok c.token, c.source) := hc
      obtain ⟨_, htoken⟩ := Reading.exists_token_eq_ok hend hbehind
      exact ⟨⟨u, l.next.2⟩, stop, hnext, .token htoken hpasses, hstop⟩

end ItemList

namespace Grammar

open Reading

theorem whole_of_next {σ : Type} [TokenSource σ] {room : Nat} {source : σ} {c : Cursor σ}
    (hnext : TokenSource.next source = (.ok c.token, c.source)) :
    Parser.whole room source = (everything room c).map Prod.fst := by
  rw [whole_eq, Cursor.ofSource_of_next_ok hnext]
  rfl

/-- What was read begins some text that is accepted. -/
def Completable (room : Nat) (read : List Token) : Prop :=
  ∃ rest, (∀ t ∈ rest, t = one ∨ t = closing) ∧
    ∃ d : Derivation .expression (read ++ rest) [], d.nesting ≤ room

theorem Viable.completable {room : Nat} {read : List Token} (h : Viable room .expression read) :
    Completable room read := by
  obtain ⟨first, rest, hfill, h⟩ := h
  obtain ⟨_, hvalue⟩ := h []
  rw [List.append_nil] at hvalue
  obtain ⟨d, _, hd⟩ := hvalue
  exact ⟨first :: rest, hfill, d, hd⟩

theorem everything_outcome {σ : Type} [TokenSource σ] (room : Nat) (c : Cursor σ) :
    (everything room).Does c (fun _ t _ => t.kind = .endOfInput)
      (fun read t e => e.IsGrammatical → e.RaisedAt t ∧ Completable room read) := by
  refine .bind (expression_outcome (atom_outcome room) c) (fun read stop v _ hsettled => ?_)
    (fun _ _ _ hstuck hgrammatical => (hstuck hgrammatical).imp_right Viable.completable)
  refine .peek_bind ?_
  by_cases hend : stop.token.kind = .endOfInput
  · rw [if_pos hend]
    exact .pure hend
  · rw [if_neg hend]
    refine .throw fun _ => ⟨.unexpectedTrailingTokens hend, [], by simp, ?_⟩
    obtain ⟨d, _, hd⟩ := hsettled [] (by simp [Fits])
    rw [List.append_nil]
    exact ⟨d, hd⟩

/-- Tokens that derive are read, wherever they stand. -/
theorem whole_ofTokens {tokens : List Token} {room : Nat}
    (htokens : ∀ t ∈ tokens, t.kind ≠ .endOfInput) (d : Derivation .expression tokens [])
    (hroom : d.nesting ≤ room) (finish : Position) :
    Parser.whole room (ItemList.ofTokens tokens finish) = .ok d.value := by
  have hstart : (ItemList.ofTokens tokens finish).StartsWith
      (tokens ++ [Token.endOfInput finish]) :=
    ⟨[], (List.append_nil _).trans (ItemList.toList_ofTokens tokens finish).symm⟩
  obtain ⟨c, stop, hnext, hpasses, hstop⟩ := hstart.exists_passes htokens
  have hahead := hpasses.ahead (.finish (congrArg Token.kind hstop))
  rw [List.append_nil] at hahead
  exact (whole_of_ahead hnext hahead d room).1 hroom

/-- Where items are read with a grammar error, the error is raised at a token before which the text
can be completed, and all items that begin with the same tokens are read with the same error. -/
theorem exists_raisedAt_of_whole {room : Nat} {l : ItemList} {e : SyntaxError}
    (h : Parser.whole room l = .error e) (hgrammatical : e.IsGrammatical) :
    ∃ before t, l.StartsWith (before ++ [t]) ∧ (∀ u ∈ before, u.kind ≠ .endOfInput) ∧
      e.RaisedAt t ∧ Completable room before ∧
      ∀ l' : ItemList, l'.StartsWith (before ++ [t]) → Parser.whole room l' = .error e := by
  cases hnext : TokenSource.next l with
  | mk item behind =>
      cases item with
      | error found =>
          unfold Parser.whole at h
          rw [Cursor.ofSource_of_next_error hnext] at h
          cases h
          exact hgrammatical.elim
      | ok first =>
          obtain ⟨c, hc⟩ : ∃ c : Cursor ItemList, c = ⟨first, behind⟩ := ⟨_, rfl⟩
          have hnext : TokenSource.next l = (.ok c.token, c.source) := hc ▸ hnext
          rw [whole_of_next hnext] at h
          cases everything_outcome room c with
          | @returns before stop value passes alike _ =>
              rw [alike c stop passes rfl] at h
              cases h
          | @fails before stop e' passes alike holds =>
              rw [alike c stop passes rfl] at h
              cases h
              obtain ⟨hraised, hcompletable⟩ := holds hgrammatical
              have hbefore := kind_ne_endOfInput_of_passes passes
              refine ⟨before, stop.token, ItemList.startsWith_of_passes passes hnext, hbefore,
                hraised, hcompletable, fun l' h' => ?_⟩
              obtain ⟨c', stop', hnext', hpasses', hstop'⟩ := h'.exists_passes hbefore
              rw [whole_of_next hnext', alike c' stop' hpasses' hstop']
              rfl
          | blocked hblocked =>
              rw [hblocked] at h
              cases h
              exact hgrammatical.elim

end Grammar

def Lexeme.finish : Lexeme :=
  ⟨.token .endOfInput, []⟩

/-- The lexemes are those of a text that is read as an expression, with the end of input. -/
def Accepted (lexemes : List Lexeme) : Prop :=
  ∃ (source : String) (tree : Expr) (tokens : List Token), Expr.parse source = .ok tree ∧
    (Scanner.ofString source).itemList.toList = tokens.map .ok ∧
      tokens.map Token.lexeme = lexemes

theorem isToken_one : one.lexeme.IsToken :=
  ⟨.intLiteral, rfl, .decimal (by simp [one, Token.lexeme]) (by simp [one, Token.lexeme])⟩

theorem isToken_closing : closing.lexeme.IsToken :=
  ⟨.rightParen, rfl, .symbol rfl⟩

/-- The lexemes of an expression can be written as a text. -/
theorem accepted_of_derivation {tokens : List Token} (htokens : ∀ t ∈ tokens, t.lexeme.IsToken)
    (d : Derivation .expression tokens []) (hroom : d.nesting ≤ 128) :
    Accepted (tokens.map Token.lexeme ++ [.finish]) := by
  have hne : tokens.map Token.lexeme ≠ [] := by
    obtain ⟨t, ht, _⟩ := d.starts
    obtain ⟨rest, rfl⟩ := List.head?_eq_some_iff.mp ht
    exact List.cons_ne_nil _ _
  obtain ⟨tokens', hscan, htokens'⟩ :=
    Lexeme.exists_tokens_spaced hne (by simpa using htokens)
  generalize String.ofList (Lexeme.spaced (tokens.map Token.lexeme)) = source at hscan
  obtain ⟨after', hafter', d', hd'⟩ := d.relocate htokens'
  obtain rfl := List.map_eq_nil_iff.mp hafter'
  have hlist : (Scanner.ofString source).itemList =
      .ofTokens tokens' (Scanner.ofString source).itemList.finish :=
    congrArg (ItemList.mk · _) hscan
  refine ⟨source, d'.value, _, (whole_of_derivation hscan d' 128).1 (hd' ▸ hroom),
    hlist ▸ ItemList.toList_ofTokens tokens' _, ?_⟩
  rw [List.map_append, htokens']
  rfl

theorem Accepted.exists_derivation {lexemes : List Lexeme} (h : Accepted lexemes) :
    ∃ tokens : List Token, lexemes = tokens.map Token.lexeme ++ [.finish] ∧
      (∀ t ∈ tokens, t.kind ≠ .endOfInput) ∧
      ∃ d : Derivation .expression tokens [], d.nesting ≤ 128 := by
  obtain ⟨source, tree, all, hparse, hall, rfl⟩ := h
  obtain ⟨tokens, hitems, d, hroom, _⟩ := derivation_of_whole hparse
  have htokens : ∀ t ∈ tokens, t.kind ≠ .endOfInput := by
    intro t ht
    have hmem : .ok t ∈ (Scanner.ofString source).itemList.items := by
      rw [hitems]
      exact List.mem_map_of_mem ht
    exact (Scanner.isToken_of_mem_itemList hmem).kind_ne_endOfInput
  refine ⟨tokens, ?_, htokens, d, hroom⟩
  have hlist : (Scanner.ofString source).itemList =
      .ofTokens tokens (Scanner.ofString source).itemList.finish :=
    congrArg (ItemList.mk · _) hitems
  rw [hlist, ItemList.toList_ofTokens] at hall
  rw [← List.map_injective_iff.mpr (fun _ _ => Except.ok.inj) hall, List.map_append]
  rfl

/-- Accepted lexemes that begin with those of some tokens can be moved to the places of these
tokens and are read there. -/
theorem Accepted.exists_startsWith {tokens : List Token} {rest : List Lexeme}
    (h : Accepted (tokens.map Token.lexeme ++ rest)) :
    ∃ l : ItemList, l.StartsWith tokens ∧ ∃ e, Parser.whole 128 l = .ok e := by
  obtain ⟨tokens', hlexemes, hkinds, d, hroom⟩ := h.exists_derivation
  have hall : (tokens' ++ [Token.endOfInput .start]).map Token.lexeme =
      tokens.map Token.lexeme ++ rest := by
    rw [hlexemes, List.map_append]
    rfl
  obtain ⟨first, others, hsplit, hfirst, rfl⟩ := List.map_eq_append_iff.mp hall
  have hmoved : (tokens ++ others).map Token.lexeme = tokens'.map Token.lexeme ++ [.finish] := by
    rw [List.map_append, hlexemes]
  obtain ⟨body, last, hbody, hmoved, hlast⟩ := List.map_eq_append_iff.mp hmoved
  obtain ⟨final, rfl, hfinal⟩ := List.map_eq_singleton_iff.mp hlast
  obtain ⟨after, hafter, d', hd'⟩ := d.relocate hmoved
  obtain rfl := List.map_eq_nil_iff.mp hafter
  have hfinish : final = Token.endOfInput final.position :=
    Token.eq_of_lexeme (show _ = (Token.endOfInput final.position).lexeme from hfinal) rfl
  have hbodykinds : ∀ t ∈ body, t.kind ≠ .endOfInput := by
    intro t ht
    have hmem : t.lexeme ∈ tokens'.map Token.lexeme := hmoved ▸ List.mem_map_of_mem ht
    obtain ⟨u, hu, heq⟩ := List.mem_map.mp hmem
    exact Token.kind_eq_of_lexeme heq ▸ hkinds u hu
  refine ⟨.ofTokens body final.position, ?_, d'.value,
    whole_ofTokens hbodykinds d' (hd' ▸ hroom) _⟩
  rw [ItemList.StartsWith, ItemList.toList_ofTokens, ← hfinish, ← hbody, List.map_append]
  exact List.prefix_append _ _

/-- A grammar error is raised at the first hopeless token: the tokens in front of it begin lexemes
that are accepted, together with it they begin none, and every text whose items begin with them is
rejected with the same error. The line of the error is the line of that token. -/
theorem error_at_first_hopeless_token (source : String) (e : SyntaxError)
    (h : Expr.parse source = .error e) (hgrammatical : e.IsGrammatical) :
    ∃ before t, (Scanner.ofString source).itemList.StartsWith (before ++ [t]) ∧
      e.RaisedAt t ∧ e.line = t.line ∧
      (∃ rest, Accepted (before.map Token.lexeme ++ rest)) ∧
      (∀ rest, ¬Accepted ((before ++ [t]).map Token.lexeme ++ rest)) ∧
      ∀ other : String, (Scanner.ofString other).itemList.StartsWith (before ++ [t]) →
        Expr.parse other = .error e := by
  rw [Expr.parse, ← Expr.ofTokens_itemList] at h
  obtain ⟨before, t, hstart, hkinds, hraised, ⟨fill, hfill, d, hd⟩, hsame⟩ :=
    exists_raisedAt_of_whole h hgrammatical
  refine ⟨before, t, hstart, hraised, hraised.line_eq, ⟨fill.map Token.lexeme ++ [.finish], ?_⟩,
    fun rest hrest => ?_, fun other hother => ?_⟩
  · have htokens : ∀ u ∈ before ++ fill, u.lexeme.IsToken := by
      intro u hu
      rcases List.mem_append.mp hu with hu | hu
      · exact Scanner.isToken_of_mem_itemList
          (hstart.ok_mem_items (List.mem_append_left _ hu) (hkinds u hu))
      · rcases hfill u hu with rfl | rfl
        · exact isToken_one
        · exact isToken_closing
    rw [← List.append_assoc, ← List.map_append]
    exact accepted_of_derivation htokens d hd
  · obtain ⟨l, hl, tree, htree⟩ := hrest.exists_startsWith
    cases htree.symm.trans (hsame l hl)
  · rw [Expr.parse, ← Expr.ofTokens_itemList]
    exact hsame _ hother

/-- Whether something fails with a given error can be decided. -/
instance decidableEqError {ε α : Type} [DecidableEq ε] (x : Except ε α) (e : ε) :
    Decidable (x = .error e) :=
  match x with
  | .ok _ => isFalse nofun
  | .error e' =>
      if h : e' = e then isTrue (congrArg Except.error h)
      else isFalse fun heq => h (Except.error.inj heq)

/-- A closing parenthesis two lines below a sum that lacks its second term is hopeless. -/
theorem error_at_first_hopeless_token_in_sum :
    Expr.parse "1 +\n\n) * 2" = .error (.unexpectedToken ")" 3) ∧
      ∃ before t, (Scanner.ofString "1 +\n\n) * 2").itemList.StartsWith (before ++ [t]) ∧
        SyntaxError.RaisedAt t (.unexpectedToken ")" 3) ∧ 3 = t.line ∧
        (∃ rest, Accepted (before.map Token.lexeme ++ rest)) ∧
        (∀ rest, ¬Accepted ((before ++ [t]).map Token.lexeme ++ rest)) ∧
        ∀ other : String, (Scanner.ofString other).itemList.StartsWith (before ++ [t]) →
          Expr.parse other = .error (.unexpectedToken ")" 3) := by
  have h : Expr.parse "1 +\n\n) * 2" = .error (.unexpectedToken ")" 3) := by decide +kernel
  exact ⟨h, error_at_first_hopeless_token _ _ h trivial⟩

end Calculator
