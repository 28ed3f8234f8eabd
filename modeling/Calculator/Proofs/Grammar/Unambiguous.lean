import Calculator.Proofs.Grammar.Derivation

/-!
The grammar is unambiguous. What follows a phrase may not go on with it: where the token behind two
derivations from the same tokens makes no joint at the level of the phrase or a stronger one, they
lead to the same place and are the same derivation.
-/

namespace Calculator.Grammar

def strength : Option Level → Nat
  | some .disjunction => 0
  | some .conjunction => 1
  | some .sum => 2
  | some .product => 3
  | some .power => 4
  | none => 5

theorem strength_stronger? (level : Level) :
    strength (stronger? level) = strength (some level) + 1 := by
  cases level <;> rfl

theorem joins_iff {level : Level} {kind : Token.Kind} {op : Operator} :
    Joins level kind op ↔ level.joint kind = .operator op := by
  constructor
  · intro h
    cases h <;> rfl
  · intro h
    cases level <;> cases kind <;> cases h <;> constructor

theorem joint_eq_adjacency_iff {level : Level} {kind : Token.Kind} :
    level.joint kind = .adjacency ↔
      level = .product ∧ (kind = .identifier ∨ kind = .leftParen) := by
  cases level <;> cases kind <;> decide

theorem Joins.unique {level : Level} {kind : Token.Kind} {op op' : Operator}
    (h : Joins level kind op) (h' : Joins level kind op') : op = op' := by
  have heq := (joins_iff.mp h).symm.trans (joins_iff.mp h')
  exact Joint.operator.inj heq

/-- A token makes a joint at one level at most. -/
theorem joint_eq_none_of_ne {level other : Level} {kind : Token.Kind}
    (h : level.joint kind ≠ .none) (hne : other ≠ level) : other.joint kind = .none := by
  cases level <;> cases kind <;> first
    | exact absurd rfl h
    | cases other <;> first | rfl | exact absurd rfl hne

/-- The first of the tokens makes no joint at the level or a stronger one, so that a phrase of the
level ends before them. -/
def Closed (level : Option Level) (after : List Token) : Prop :=
  ∀ t ∈ after.head?, ∀ l : Level, strength level ≤ strength (some l) → l.joint t.kind = .none

theorem closed_nil (level : Option Level) : Closed level [] := by
  intro t ht
  cases ht

/-- Atoms end by themselves. -/
theorem closed_none (after : List Token) : Closed none after := by
  intro t _ l hl
  cases l <;> exact absurd hl (by decide)

theorem Closed.stronger {level : Level} {after : List Token} (h : Closed (some level) after) :
    Closed (stronger? level) after := by
  intro t ht l hl
  rw [strength_stronger?] at hl
  exact h t ht l (by omega)

theorem Closed.joint_eq_none {level : Level} {t : Token} {rest : List Token}
    (h : Closed (some level) (t :: rest)) : level.joint t.kind = .none :=
  h t rfl level (Nat.le_refl _)

/-- The operands of a level end before the tokens that join them. -/
theorem closed_of_joint {level : Level} {t : Token} (rest : List Token)
    (h : level.joint t.kind ≠ .none) : Closed (stronger? level) (t :: rest) := by
  intro u hu l hl
  have htu : t = u := Option.some.inj hu
  subst htu
  rw [strength_stronger?] at hl
  apply joint_eq_none_of_ne h
  intro heq
  subst heq
  omega

/-- Every phrase ends before a closing parenthesis and before a comma. -/
theorem closed_of_closes {level : Option Level} {t : Token} (rest : List Token)
    (h : t.kind = .rightParen ∨ t.kind = .comma) : Closed level (t :: rest) := by
  intro u hu l _
  have htu : t = u := Option.some.inj hu
  subst htu
  rcases h with h | h <;> rw [h] <;> cases l <;> rfl

/-- What goes on with a phrase, or ends it, ends its first operand. -/
theorem Derivation.closed_tail {level : Level} {before after : List Token}
    (d : Derivation (.tail level) before after) (h : Closed (some level) after) :
    Closed (stronger? level) before := by
  cases d with
  | done => exact h.stronger
  | operator op sign joins operand others =>
      apply closed_of_joint
      rw [joins_iff.mp joins]
      exact Joint.noConfusion
  | adjacency first starts operand others =>
      apply closed_of_joint
      rw [joint_eq_adjacency_iff.mpr ⟨rfl, starts⟩]
      exact Joint.noConfusion

def Symbol.Starts : Symbol → List Token → Prop
  | .phrase _, before => ∃ t, before.head? = some t ∧ t.kind ≠ .rightParen
  | .arguments, before => ∃ t, before.head? = some t ∧ t.kind ≠ .rightParen
  | .tail _, _ => True
  | .argumentList, _ => True

theorem Derivation.starts {s : Symbol} {before after : List Token}
    (d : Derivation s before after) : s.Starts before := by
  induction d with
  | phrase _ _ ih _ => exact ih
  | done => exact trivial
  | operator _ _ _ _ _ => exact trivial
  | adjacency _ _ _ _ => exact trivial
  | negation sign minus _ => exact ⟨sign, rfl, by simp [minus]⟩
  | group opens _ _ => exact ⟨_, rfl, by simp [opens]⟩
  | constant name _ identifier _ _ => exact ⟨name, rfl, by simp [identifier]⟩
  | call name _ identifier _ _ _ => exact ⟨name, rfl, by simp [identifier]⟩
  | number literal _ _ numeral _ =>
      refine ⟨literal, rfl, ?_⟩
      intro h
      simp [h] at numeral
  | noArgument _ => exact trivial
  | someArguments _ => exact trivial
  | lastArgument _ _ ih => exact ih
  | nextArgument _ _ _ ih _ => exact ih

private theorem Derivation.arguments_not_closing {closing : Token} {rest after : List Token}
    (d : Derivation .arguments (closing :: rest) after) : closing.kind ≠ .rightParen := by
  obtain ⟨t, ht, hkind⟩ := d.starts
  cases ht
  exact hkind

/-- What has to hold of the tokens behind a derivation for it to be the only one. -/
def Symbol.Ends : Symbol → List Token → Prop
  | .phrase level, after => Closed level after
  | .tail level, after => Closed (some level) after
  | .argumentList, _ => True
  | .arguments, _ => True

/-- Two derivations from the same tokens that end lead to the same tokens and are equal. -/
theorem Derivation.unique {s : Symbol} {before after after' : List Token}
    (d : Derivation s before after) (d' : Derivation s before after') (h : s.Ends after)
    (h' : s.Ends after') :
    (⟨after, d⟩ : (rest : List Token) × Derivation s before rest) = ⟨after', d'⟩ := by
  induction d generalizing after' with
  | phrase first others ihf iho =>
      cases d' with
      | phrase first' others' =>
          cases ihf first' (others.closed_tail h) (others'.closed_tail h')
          cases iho others' h h'
          rfl
  | done =>
      cases d' with
      | done => rfl
      | operator op sign joins _ _ =>
          rw [joins_iff, h.joint_eq_none] at joins
          cases joins
      | adjacency first starts _ _ =>
          have hjoint := joint_eq_adjacency_iff.mpr ⟨rfl, starts⟩
          rw [h.joint_eq_none] at hjoint
          cases hjoint
  | operator op sign joins operand others ihp iho =>
      cases d' with
      | done =>
          rw [joins_iff, h'.joint_eq_none] at joins
          cases joins
      | operator op' _ joins' operand' others' =>
          cases joins.unique joins'
          cases ihp operand' (others.closed_tail h) (others'.closed_tail h')
          cases iho others' h h'
          rfl
      | adjacency _ starts _ _ =>
          have hjoint := joint_eq_adjacency_iff.mpr ⟨rfl, starts⟩
          rw [joins_iff.mp joins] at hjoint
          cases hjoint
  | adjacency first starts operand others ihp iho =>
      have hjoint := joint_eq_adjacency_iff.mpr ⟨rfl, starts⟩
      cases d' with
      | done =>
          rw [h'.joint_eq_none] at hjoint
          cases hjoint
      | operator _ _ joins _ _ =>
          rw [joins_iff.mp joins] at hjoint
          cases hjoint
      | adjacency _ _ operand' others' =>
          cases ihp operand' (closed_none _) (closed_none _)
          cases iho others' h h'
          rfl
  | negation sign minus operand ih =>
      cases d' with
      | negation _ _ operand' =>
          cases ih operand' (closed_none _) (closed_none _)
          rfl
      | group opens _ _ => cases minus.symm.trans opens
      | constant _ _ identifier _ _ => cases minus.symm.trans identifier
      | call _ _ identifier _ _ _ => cases minus.symm.trans identifier
      | number _ _ _ numeral _ => simp [minus] at numeral
  | group opens content closes ih =>
      cases d' with
      | negation _ minus _ => cases minus.symm.trans opens
      | group _ content' closes' =>
          cases ih content' (closed_of_closes _ (.inl closes)) (closed_of_closes _ (.inl closes'))
          rfl
      | constant _ _ identifier _ _ => cases opens.symm.trans identifier
      | call _ _ identifier _ _ _ => cases opens.symm.trans identifier
      | number _ _ _ numeral _ => simp [opens] at numeral
  | constant name c identifier bare known =>
      cases d' with
      | negation _ minus _ => cases minus.symm.trans identifier
      | group opens _ _ => cases opens.symm.trans identifier
      | constant _ c' _ _ known' =>
          cases known.symm.trans known'
          rfl
      | call _ _ _ opens _ _ => exact absurd opens (bare _ rfl)
      | number _ _ _ numeral _ => simp [identifier] at numeral
  | call name f identifier opens known list ih =>
      cases d' with
      | negation _ minus _ => cases minus.symm.trans identifier
      | group opens _ _ => cases opens.symm.trans identifier
      | constant _ _ _ bare _ => exact absurd opens (bare _ rfl)
      | call _ f' _ _ known' list' =>
          cases known.symm.trans known'
          cases ih list' trivial trivial
          rfl
      | number _ _ _ numeral _ => simp [identifier] at numeral
  | number literal x numericType numeral convertible =>
      cases d' with
      | negation _ minus _ => simp [minus] at numeral
      | group opens _ _ => simp [opens] at numeral
      | constant _ _ identifier _ _ => simp [identifier] at numeral
      | call _ _ identifier _ _ _ => simp [identifier] at numeral
      | number _ x' numericType' _ convertible' =>
          cases convertible.symm.trans convertible'
          rfl
  | noArgument closes =>
      cases d' with
      | noArgument _ => rfl
      | someArguments list' => exact absurd closes list'.arguments_not_closing
  | someArguments list ih =>
      cases d' with
      | noArgument closes => exact absurd closes list.arguments_not_closing
      | someArguments list' =>
          cases ih list' trivial trivial
          rfl
  | lastArgument argument closes ih =>
      cases d' with
      | lastArgument argument' closes' =>
          cases ih argument' (closed_of_closes _ (.inl closes)) (closed_of_closes _ (.inl closes'))
          rfl
      | nextArgument argument' separates' _ =>
          cases ih argument' (closed_of_closes _ (.inl closes))
            (closed_of_closes _ (.inr separates'))
          cases closes.symm.trans separates'
  | nextArgument argument separates list iha ihl =>
      cases d' with
      | lastArgument argument' closes' =>
          cases iha argument' (closed_of_closes _ (.inr separates))
            (closed_of_closes _ (.inl closes'))
          cases separates.symm.trans closes'
      | nextArgument argument' separates' list' =>
          cases iha argument' (closed_of_closes _ (.inr separates))
            (closed_of_closes _ (.inr separates'))
          cases ihl list' trivial trivial
          rfl

end Calculator.Grammar
