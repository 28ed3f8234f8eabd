import Calculator.Proofs.Lookahead.Completion
import Calculator.Proofs.Lookahead.Program

/-!
How reading ends. Each parser either settles a value of its symbol, or raises an error at a token
before which what it read can still be completed, or raises an error that is not about the grammar.
-/

namespace Calculator

/-- The errors about the order of the tokens and the value of a number. -/
def SyntaxError.IsGrammatical : SyntaxError → Prop
  | .invalidNumber _ _ | .unexpectedToken _ _ | .unexpectedEndOfInput _
  | .expectedClosingParen _ | .unexpectedTrailingTokens _ _ => True
  | .unknownCharacter _ | .unknownIdentifier _ _ | .nestingTooDeep _ => False

/-- The token that an error is raised at: the one that it names, the end of input, or the one that
is found where a parenthesis should be closed. -/
inductive SyntaxError.RaisedAt (t : Token) : SyntaxError → Prop where
  | invalidNumber
      (numeral : t.kind ∈ [Token.Kind.intLiteral, .floatLiteral, .hexLiteral, .binLiteral])
      (unreadable : Numeral.read? t.kind t.text.toList = none) :
      RaisedAt t (.invalidNumber t.text t.line)
  | unexpectedToken (before_end : t.kind ≠ .endOfInput) :
      RaisedAt t (.unexpectedToken t.text t.line)
  | unexpectedEndOfInput (at_end : t.kind = .endOfInput) :
      RaisedAt t (.unexpectedEndOfInput t.line)
  | expectedClosingParen (open_ended : t.kind ≠ .rightParen) :
      RaisedAt t (.expectedClosingParen t.line)
  | unexpectedTrailingTokens (before_end : t.kind ≠ .endOfInput) :
      RaisedAt t (.unexpectedTrailingTokens t.text t.line)

theorem SyntaxError.RaisedAt.line_eq {t : Token} {e : SyntaxError} (h : e.RaisedAt t) :
    e.line = t.line := by
  cases h <;> rfl

namespace Grammar

open Calculator.Parser Reading

variable {σ : Type} [TokenSource σ]

/-- An error about the grammar is raised at the token in view, and what was read up to there can be
completed. -/
def Stuck (room : Nat) (s : Symbol) (read : List Token) (t : Token) (e : SyntaxError) : Prop :=
  e.IsGrammatical → e.RaisedAt t ∧ Viable room s read

theorem Stuck.map {room room' : Nat} {s s' : Symbol} {read read' : List Token} {t : Token}
    {e : SyntaxError} (h : Stuck room s read t e)
    (hviable : Viable room s read → Viable room' s' read') : Stuck room' s' read' t e :=
  fun hgrammatical => (h hgrammatical).imp_right hviable

def Reads (room : Nat) (s : Symbol) (p : Parser σ s.Value) : Prop :=
  ∀ c : Cursor σ, (of p).Does c (Settled room s) (Stuck room s)

/-- The outcomes of a parser for atoms, which passes the token of a name or a parenthesis. -/
def ReadsAtoms (room : Nat) (p : Parser σ Expr) : Prop :=
  ∀ c : Cursor σ, (of p).Does c (Settled room .atom) fun read t e =>
    Stuck room .atom read t e ∧ (e.IsGrammatical →
      c.token.kind = .identifier ∨ c.token.kind = .leftParen → read ≠ [])

theorem ReadsAtoms.reads {room : Nat} {p : Parser σ Expr} (h : ReadsAtoms room p) :
    Reads room .atom p :=
  fun c => (h c).mono (fun _ _ _ _ hsettled => hsettled) (fun _ _ _ _ hstuck => hstuck.1)

/-- The loop of a level, by induction on what is left to read. -/
theorem tail_outcome {room : Nat} {level : Level} {atom operand : Parser σ Expr}
    (hatom : ReadsAtoms room atom) (hoperand : Reads room (.phrase (stronger? level)) operand)
    (left : Expr) (c : Cursor σ) :
    (tail level atom operand left).Does c
      (fun read t v => ∃ others, Settled room (.tail level) read t others ∧ v = others left)
      (Stuck room (.tail level)) := by
  induction hn : c.size using Nat.strongRecOn generalizing c left with
  | ind k ih =>
      rw [tail_eq]
      refine .peek_bind ?_
      cases hjoint : level.joint c.token.kind with
      | none => exact .pure ⟨id, .done, rfl⟩
      | operator op =>
          have joins := joins_iff.mpr hjoint
          have hend := Level.ne_endOfInput_of_joint hjoint
          refine .token_bind hend fun rest hrest => ?_
          refine .bind (hoperand rest) (fun read mid right hright hsettled => ?_)
            (fun _ _ _ hstuck => hstuck.map (.operand joins))
          have hmid : mid.size < k := hn ▸ Nat.lt_trans (size_lt_of_eq_ok hright) hrest
          refine (ih _ hmid _ mid rfl).mono ?_ ?_
          · rintro read' t v hread' ⟨others, hothers, rfl⟩
            exact ⟨_, .operator joins hsettled hothers hread', rfl⟩
          · intro read' t e hread' hstuck
            exact hstuck.map fun hviable => .operator joins hsettled hviable hread'
      | adjacency =>
          obtain ⟨rfl, starts⟩ := joint_eq_adjacency_iff.mp hjoint
          refine .bind (hatom c).and_head?_eq ?_ ?_
          · rintro read mid right hright ⟨hread, hsettled⟩
            have hmid : mid.size < k := hn ▸ size_lt_of_eq_ok hright
            obtain ⟨read, rfl⟩ := hsettled.exists_cons hread
            refine (ih _ hmid _ mid rfl).mono ?_ ?_
            · rintro read' t v hread' ⟨others, hothers, rfl⟩
              exact ⟨_, .adjacency starts hsettled hothers hread', rfl⟩
            · intro read' t e hread' hstuck
              exact hstuck.map fun hviable => .adjacency starts hsettled hviable hread'
          · rintro read t e ⟨hread, hstuck, hpassed⟩ hgrammatical
            obtain ⟨first, read, rfl⟩ :=
              List.exists_cons_of_ne_nil (hpassed hgrammatical starts)
            cases hread
            exact hstuck.map (.factor starts) hgrammatical

theorem chain_outcome {room : Nat} {level : Level} {atom operand : Parser σ Expr}
    (hatom : ReadsAtoms room atom) (hoperand : Reads room (.phrase (stronger? level)) operand) :
    Reads room (.phrase (some level)) (chain level atom operand) := by
  intro c
  rw [of_chain]
  refine .bind (hoperand c) (fun read mid left _ hsettled => ?_)
    (fun _ _ _ hstuck => hstuck.map .first)
  refine (tail_outcome hatom hoperand left mid).mono ?_ ?_
  · rintro read' t v hread' ⟨others, hothers, rfl⟩
    exact hsettled.phrase hothers hread'
  · intro read' t e hread' hstuck
    exact hstuck.map fun hviable => .others hsettled hviable hread'

theorem expression_outcome {room : Nat} {atom : Parser σ Expr} (hatom : ReadsAtoms room atom) :
    Reads room .expression (expression atom) :=
  chain_outcome hatom <| chain_outcome hatom <| chain_outcome hatom <| chain_outcome hatom <|
    chain_outcome hatom hatom.reads

theorem number_outcome (room : Nat) {c : Cursor σ}
    (numeral : c.token.kind ∈ [Token.Kind.intLiteral, .floatLiteral, .hexLiteral, .binLiteral]) :
    (of (number : Parser σ Expr)).Does c (Settled (room + 1) .atom) (Stuck (room + 1) .atom) := by
  have hend : c.token.kind ≠ .endOfInput := by
    intro hend
    simp [hend] at numeral
  rw [of_number]
  refine .peek_bind ?_
  rw [if_pos numeral]
  cases hread : Numeral.read? c.token.kind c.token.text.toList with
  | none => exact .throw fun _ => ⟨.invalidNumber numeral hread, viable_atom room⟩
  | some literal => exact .token_bind hend fun _ _ => .pure (.number numeral hread)

theorem negation_outcome {room : Nat} {atom : Parser σ Expr} (hatom : Reads room .atom atom)
    {c : Cursor σ} (minus : c.token.kind = .minus) :
    (of (negation atom)).Does c (Settled (room + 1) .atom) (Stuck (room + 1) .atom) := by
  rw [of_negation]
  refine .peek_bind (.token_bind (by simp [minus]) fun rest _ => ?_)
  refine .bind (hatom rest) (fun read mid operand _ hsettled => ?_)
    (fun _ _ _ hstuck => hstuck.map (.negation minus))
  refine .pure ?_
  rw [List.append_nil]
  exact hsettled.negation minus

theorem group_outcome {room : Nat} {inner : Parser σ Expr} (hinner : Reads room .expression inner)
    {c : Cursor σ} (opens : c.token.kind = .leftParen) :
    (of (group inner)).Does c (Settled (room + 1) .atom) fun read t e =>
      Stuck (room + 1) .atom read t e ∧ read ≠ [] := by
  rw [of_group]
  refine .token_bind (by simp [opens]) fun rest _ => ?_
  refine .bind (hinner rest) (fun read mid content _ hsettled => ?_)
    (fun _ _ _ hstuck => ⟨hstuck.map (.group opens), List.cons_ne_nil _ _⟩)
  refine .peek_bind ?_
  by_cases closes : mid.token.kind = .rightParen
  · rw [if_pos closes]
    exact .token_bind (by simp [closes]) fun _ _ => .pure (hsettled.group opens closes)
  · rw [if_neg closes]
    refine .throw ⟨fun _ => ⟨.expectedClosingParen closes, ?_⟩, List.cons_ne_nil _ _⟩
    rw [List.append_nil]
    exact hsettled.viable_group opens

theorem arguments_outcome {room : Nat} {inner : Parser σ Expr}
    (hinner : Reads room .expression inner) : Reads room .arguments (arguments inner) := by
  intro c
  induction hn : c.size using Nat.strongRecOn generalizing c with
  | ind k ih =>
      rw [of_arguments]
      refine .bind (hinner c) (fun read mid argument hargument hsettled => ?_)
        (fun _ _ _ hstuck => hstuck.map .lastArgument)
      refine .peek_bind ?_
      have hviable : Viable room .arguments (read ++ []) := by
        rw [List.append_nil]
        exact hsettled.viable_arguments
      cases hkind : mid.token.kind
      case rightParen =>
        exact .token_bind (by simp [hkind]) fun _ _ => .pure (hsettled.lastArgument hkind)
      case comma =>
        refine .token_bind (by simp [hkind]) fun rest hrest => ?_
        have hlt : rest.size < k := hn ▸ Nat.lt_trans hrest (size_lt_of_eq_ok hargument)
        refine .bind (ih _ hlt rest rfl) (fun read' stop others _ hothers => ?_)
          (fun _ _ _ hstuck => hstuck.map (.nextArgument hsettled hkind))
        refine .pure ?_
        rw [List.append_nil]
        exact hsettled.nextArgument hkind hothers
      case endOfInput =>
        exact .throw fun _ => ⟨.expectedClosingParen (by simp [hkind]), hviable⟩
      all_goals exact .throw fun _ => ⟨.unexpectedToken (by simp [hkind]), hviable⟩

theorem argumentList_outcome {room : Nat} {inner : Parser σ Expr}
    (hinner : Reads room .expression inner) {c : Cursor σ} (opens : c.token.kind = .leftParen) :
    (of (argumentList inner)).Does c
      (fun read t list => ∃ others, read = c.token :: others ∧
        Settled room .argumentList others t list)
      (fun read t e => ∃ others, read = c.token :: others ∧
        Stuck room .argumentList others t e) := by
  rw [of_argumentList]
  refine .token_bind (by simp [opens]) fun rest _ => .peek_bind ?_
  by_cases closes : rest.token.kind = .rightParen
  · rw [if_pos closes]
    exact .token_bind (by simp [closes]) fun _ _ => .pure ⟨_, rfl, .noArgument closes⟩
  · rw [if_neg closes]
    refine (arguments_outcome hinner rest).mono ?_ ?_
    · intro read t list _ hsettled
      exact ⟨read, rfl, hsettled.someArguments⟩
    · intro read t e _ hstuck
      exact ⟨read, rfl, hstuck.map .someArguments⟩

theorem named_outcome {room : Nat} {inner : Parser σ Expr} (hinner : Reads room .expression inner)
    {c : Cursor σ} (identifier : c.token.kind = .identifier) :
    (of (named inner)).Does c (Settled (room + 1) .atom) fun read t e =>
      Stuck (room + 1) .atom read t e ∧ read ≠ [] := by
  rw [of_named]
  refine .peek_bind (.token_bind (by simp [identifier]) fun rest _ => .peek_bind ?_)
  by_cases opens : rest.token.kind = .leftParen
  · rw [if_pos opens]
    cases known : NamedFunction.ofName? c.token.text with
    | none => exact .throw ⟨fun hgrammatical => hgrammatical.elim, List.cons_ne_nil _ _⟩
    | some f =>
        refine .bind (argumentList_outcome hinner opens) ?_ ?_
        · rintro read stop list _ ⟨others, rfl, hsettled⟩
          refine .pure ?_
          rw [List.append_nil]
          exact hsettled.call identifier opens known
        · rintro read t e ⟨others, rfl, hstuck⟩
          exact ⟨hstuck.map (.call identifier opens known), List.cons_ne_nil _ _⟩
  · rw [if_neg opens]
    cases known : Constant.ofName? c.token.text with
    | none => exact .throw ⟨fun hgrammatical => hgrammatical.elim, List.cons_ne_nil _ _⟩
    | some constant => exact .pure (.constant identifier opens known)

/-- The atoms, by induction on the room. -/
theorem atom_outcome (room : Nat) : ReadsAtoms room (atom room : Parser σ Expr) := by
  induction room with
  | zero =>
      intro c
      rw [of_atom_zero]
      exact .peek_bind (.throw ⟨fun hgrammatical => hgrammatical.elim, fun hgrammatical =>
        hgrammatical.elim⟩)
  | succ room ih =>
      intro c
      have hinner := expression_outcome ih
      change (of (atomOver (atom room))).Does c _ _
      rw [of_atomOver]
      refine .peek_bind ?_
      cases hkind : c.token.kind
      case minus =>
        refine (negation_outcome ih.reads hkind).mono (fun _ _ _ _ hsettled => hsettled) ?_
        exact fun _ _ _ _ hstuck => ⟨hstuck, fun _ starts => by simp at starts⟩
      case leftParen =>
        refine (group_outcome hinner hkind).mono (fun _ _ _ _ hsettled => hsettled) ?_
        exact fun _ _ _ _ hstuck => ⟨hstuck.1, fun _ _ => hstuck.2⟩
      case identifier =>
        refine (named_outcome hinner hkind).mono (fun _ _ _ _ hsettled => hsettled) ?_
        exact fun _ _ _ _ hstuck => ⟨hstuck.1, fun _ _ => hstuck.2⟩
      case endOfInput =>
        exact .throw ⟨fun _ => ⟨.unexpectedEndOfInput hkind, viable_atom room⟩,
          fun _ starts => by simp at starts⟩
      case intLiteral | floatLiteral | hexLiteral | binLiteral =>
        refine (number_outcome room (by simp [hkind])).mono (fun _ _ _ _ hsettled => hsettled) ?_
        exact fun _ _ _ _ hstuck => ⟨hstuck, fun _ starts => by simp at starts⟩
      all_goals
        exact .throw ⟨fun _ => ⟨.unexpectedToken (by simp [hkind]), viable_atom room⟩,
          fun _ starts => by simp at starts⟩

end Grammar

end Calculator
