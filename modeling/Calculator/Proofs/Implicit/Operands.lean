import Calculator.Proofs.Lookahead.Completion

/-!
Operands without an operator in front of them. What is derived from tokens is derived as well when a
star is put in front of each such operand, with the same tree and the same nesting; and where a
derivation ends, no such operand is followed by a caret.
-/

namespace Calculator

def Token.star (first : Token) : Token :=
  ⟨.star, "*", first.position⟩

def starred (tokens : List (Token × Bool)) : List Token :=
  tokens.flatMap fun (t, isMarked) => if isMarked then [t.star, t] else [t]

@[simp] theorem starred_cons_false (t : Token) (tokens : List (Token × Bool)) :
    starred ((t, false) :: tokens) = t :: starred tokens := rfl

@[simp] theorem starred_cons_true (t : Token) (tokens : List (Token × Bool)) :
    starred ((t, true) :: tokens) = t.star :: t :: starred tokens := rfl

@[simp] theorem starred_append (tokens others : List (Token × Bool)) :
    starred (tokens ++ others) = starred tokens ++ starred others :=
  List.flatMap_append

theorem mem_starred {t : Token} {tokens : List (Token × Bool)} (h : t ∈ starred tokens) :
    t ∈ tokens.map Prod.fst ∨ t.kind = .star := by
  obtain ⟨⟨u, isMarked⟩, hu, ht⟩ := List.mem_flatMap.mp h
  cases isMarked with
  | false =>
      obtain rfl : t = u := List.mem_singleton.mp ht
      exact .inl (List.mem_map_of_mem hu)
  | true =>
      rcases List.mem_cons.mp ht with rfl | ht
      · exact .inr rfl
      · obtain rfl : t = u := List.mem_singleton.mp ht
        exact .inl (List.mem_map_of_mem hu)

namespace Grammar

theorem Builds.mono {room room' : Nat} {s : Symbol} {before after : List Token} {value : s.Value}
    (h : Builds room s before after value) (hroom : room ≤ room') :
    Builds room' s before after value := by
  obtain ⟨d, hvalue, hnesting⟩ := h
  exact ⟨d, hvalue, Nat.le_trans hnesting hroom⟩

def Opens (tokens : List Token) : Prop :=
  ∃ t ∈ tokens.head?, t.kind = .leftParen

theorem Opens.cons {t : Token} {rest rest' : List Token} (h : Opens (t :: rest)) :
    Opens (t :: rest') := by
  obtain ⟨u, hu, hkind⟩ := h
  cases hu
  exact ⟨t, rfl, hkind⟩

namespace Derivation

/-- The operands that no operator stands in front of: of each of them the first token and the tokens
behind it. -/
def implicitOperands {s : Symbol} {before after : List Token} :
    Derivation s before after → List (Token × List Token)
  | .phrase first others => first.implicitOperands ++ others.implicitOperands
  | .done => []
  | .operator _ _ _ operand others => operand.implicitOperands ++ others.implicitOperands
  | @adjacency _ middle _ first _ operand others =>
      (first, middle) :: (operand.implicitOperands ++ others.implicitOperands)
  | .negation _ _ operand => operand.implicitOperands
  | .group _ content _ => content.implicitOperands
  | .constant _ _ _ _ _ => []
  | .call _ _ _ _ _ list => list.implicitOperands
  | .number _ _ _ _ _ => []
  | .noArgument _ => []
  | .someArguments list => list.implicitOperands
  | .lastArgument argument _ => argument.implicitOperands
  | .nextArgument argument _ list => argument.implicitOperands ++ list.implicitOperands

/-- The tokens that are used up, those marked with which an implicit operand starts. -/
def marked {s : Symbol} {before after : List Token} :
    Derivation s before after → List (Token × Bool)
  | .phrase first others => first.marked ++ others.marked
  | .done => []
  | .operator _ sign _ operand others => (sign, false) :: (operand.marked ++ others.marked)
  | .adjacency first _ operand others => (first, true) :: (operand.marked.tail ++ others.marked)
  | .negation sign _ operand => (sign, false) :: operand.marked
  | @group opening closing _ _ _ content _ =>
      (opening, false) :: (content.marked ++ [(closing, false)])
  | .constant name _ _ _ _ => [(name, false)]
  | @call opening _ _ name _ _ _ _ list => (name, false) :: (opening, false) :: list.marked
  | .number literal _ _ _ _ => [(literal, false)]
  | @noArgument closing _ _ => [(closing, false)]
  | .someArguments list => list.marked
  | @lastArgument closing _ _ argument _ => argument.marked ++ [(closing, false)]
  | @nextArgument comma _ _ _ argument _ list => argument.marked ++ (comma, false) :: list.marked

variable {s : Symbol} {before after : List Token}

/-- A phrase uses up a token, and the first one is not marked by the phrase itself. -/
theorem exists_marked_eq_cons {level : Option Level}
    (d : Derivation (.phrase level) before after) :
    ∃ t others, d.marked = (t, false) :: others := by
  generalize hs : Symbol.phrase level = s at d
  induction d generalizing level with
  | phrase first others ihf _ =>
      obtain ⟨t, marks, hfirst⟩ := ihf rfl
      exact ⟨t, marks ++ others.marked, by rw [marked, hfirst, List.cons_append]⟩
  | negation sign _ operand => exact ⟨sign, _, rfl⟩
  | @group opening _ _ _ _ _ _ => exact ⟨opening, _, rfl⟩
  | constant name _ _ _ _ => exact ⟨name, _, rfl⟩
  | call name _ _ _ _ _ => exact ⟨name, _, rfl⟩
  | number literal _ _ _ _ => exact ⟨literal, _, rfl⟩
  | _ => cases hs

/-- Nothing is used up but the tokens that are marked or not. -/
theorem marked_append_after (d : Derivation s before after) :
    d.marked.map Prod.fst ++ after = before := by
  induction d with
  | phrase first others ihf iho => simp [marked, iho, ihf]
  | done => rfl
  | operator op sign _ operand others ihp iho => simp [marked, iho, ihp]
  | adjacency first _ operand others ihp iho =>
      obtain ⟨t, marks, hoperand⟩ := operand.exists_marked_eq_cons
      rw [hoperand] at ihp
      have hrest : marks.map Prod.fst ++ _ = _ := (List.cons.inj ihp).2
      simp [marked, hoperand, iho, hrest]
  | negation sign _ operand ih => simp [marked, ih]
  | group _ content _ ih => simp [marked, ih]
  | constant _ _ _ _ _ => rfl
  | call _ _ _ _ _ list ih => simp [marked, ih]
  | number _ _ _ _ _ => rfl
  | noArgument _ => rfl
  | someArguments list ih => exact ih
  | lastArgument argument _ ih => simp [marked, ih]
  | nextArgument argument _ list iha ihl => simp [marked, ihl, iha]

/-- The marks of an operand apart from its first token. -/
theorem marked_eq_cons_tail {first : Token} {rest : List Token}
    (d : Derivation .atom (first :: rest) after) : d.marked = (first, false) :: d.marked.tail := by
  obtain ⟨t, marks, hmarked⟩ := d.exists_marked_eq_cons
  have hconsumed := d.marked_append_after
  rw [hmarked] at hconsumed ⊢
  have hfirst : t = first := (List.cons.inj hconsumed).1
  rw [hfirst, List.tail_cons]

/-- The tokens that are marked are the first ones of the implicit operands. -/
theorem marked_filter (d : Derivation s before after) :
    (d.marked.filter Prod.snd).map Prod.fst = d.implicitOperands.map Prod.fst := by
  induction d with
  | phrase first others ihf iho => simp [marked, implicitOperands, ihf, iho]
  | done => rfl
  | operator op sign _ operand others ihp iho => simp [marked, implicitOperands, ihp, iho]
  | adjacency first _ operand others ihp iho =>
      rw [operand.marked_eq_cons_tail] at ihp
      simp at ihp
      simp [marked, implicitOperands, ihp, iho]
  | negation sign _ operand ih => simp [marked, implicitOperands, ih]
  | group _ content _ ih => simp [marked, implicitOperands, ih]
  | constant _ _ _ _ _ => rfl
  | call _ _ _ _ _ list ih => simp [marked, implicitOperands, ih]
  | number _ _ _ _ _ => rfl
  | noArgument _ => rfl
  | someArguments list ih => exact ih
  | lastArgument argument _ ih => simp [marked, implicitOperands, ih]
  | nextArgument argument _ list iha ihl => simp [marked, implicitOperands, iha, ihl]

/-- Stars open no parenthesis. -/
theorem opens_of_starred (d : Derivation s before after) {after' : List Token}
    (h : Opens after' → Opens after) (hopens : Opens (starred d.marked ++ after')) :
    Opens before := by
  have hconsumed := d.marked_append_after
  generalize d.marked = marks at hopens hconsumed
  subst hconsumed
  cases marks with
  | nil => exact h hopens
  | cons mark marks =>
      obtain ⟨t, isMarked⟩ := mark
      cases isMarked with
      | false => exact hopens.cons
      | true =>
          obtain ⟨u, hu, hkind⟩ := hopens
          cases hu
          cases hkind

/-- With a star in front of every implicit operand the same tree derives. What follows may be
replaced as well, unless a parenthesis behind a constant would make a call of it. -/
theorem builds_starred (d : Derivation s before after) {after' : List Token}
    (h : Opens after' → Opens after) :
    Builds d.nesting s (starred d.marked ++ after') after' d.value := by
  induction d generalizing after' with
  | phrase first others ihf iho =>
      rw [marked, starred_append, List.append_assoc]
      have hfirst := ihf (others.opens_of_starred h)
      exact (hfirst.mono (Nat.le_max_left _ _)).phrase ((iho h).mono (Nat.le_max_right _ _))
  | done => exact .done
  | operator op sign joins operand others ihp iho =>
      rw [marked, starred_cons_false, starred_append, List.cons_append, List.append_assoc]
      have hoperand := ihp (others.opens_of_starred h)
      exact .operator joins (hoperand.mono (Nat.le_max_left _ _))
        ((iho h).mono (Nat.le_max_right _ _))
  | adjacency first starts operand others ihp iho =>
      have hoperand := ihp (others.opens_of_starred h)
      rw [operand.marked_eq_cons_tail, starred_cons_false] at hoperand
      rw [marked, starred_cons_true, starred_append, List.cons_append, List.cons_append,
        List.append_assoc]
      have hphrase : Builds _ (.phrase (some .power)) _ _ operand.value := .phrase hoperand .done
      have hstar : Joins .product first.star.kind .mul := .mul
      exact .operator hstar (hphrase.mono (Nat.le_max_left _ _))
        ((iho h).mono (Nat.le_max_right _ _))
  | negation sign minus operand ih => exact .negation minus (ih h)
  | group opens content closes ih =>
      rw [marked, starred_cons_false, starred_append, List.cons_append, List.append_assoc]
      exact .group opens (ih Opens.cons) closes
  | constant name c identifier bare known =>
      apply Builds.constant identifier _ known
      intro t ht hkind
      obtain ⟨u, hu, hopening⟩ := h ⟨t, ht, hkind⟩
      exact bare u hu hopening
  | call name f identifier opens known list ih => exact .call identifier opens known (ih h)
  | number literal value numericType numeral convertible => exact .number numeral convertible
  | noArgument closes => exact .noArgument closes
  | someArguments list ih => exact .someArguments (ih h)
  | lastArgument argument closes ih =>
      rw [marked, starred_append, List.append_assoc]
      exact .lastArgument (ih Opens.cons) closes
  | nextArgument argument separates list iha ihl =>
      rw [marked, starred_append, List.append_assoc]
      exact .nextArgument ((iha Opens.cons).mono (Nat.le_max_left _ _)) separates
        ((ihl h).mono (Nat.le_max_right _ _))

/-- Where a derivation ends no implicit operand is followed by a caret: it would have to join the
operand, but the operands of a level end before the tokens that join them. -/
theorem kind_ne_caret (d : Derivation s before after) (h : s.Ends after) :
    ∀ operand ∈ d.implicitOperands, ∀ t ∈ operand.2.head?, t.kind ≠ .caret := by
  induction d with
  | phrase first others ihf iho =>
      exact List.forall_mem_append.mpr ⟨ihf (others.closed_tail h), iho h⟩
  | done => exact List.forall_mem_nil _
  | operator _ _ _ _ others ihp iho =>
      exact List.forall_mem_append.mpr ⟨ihp (others.closed_tail h), iho h⟩
  | @adjacency _ middle _ first _ operand others ihp iho =>
      have hclosed : Closed (some .power) middle := others.closed_tail h
      have hoperand : ∀ t ∈ middle.head?, t.kind ≠ .caret := by
        intro t ht hcaret
        have hjoint := hclosed t ht .power (Nat.le_refl _)
        rw [hcaret] at hjoint
        cases hjoint
      exact List.forall_mem_cons.mpr
        ⟨hoperand, List.forall_mem_append.mpr ⟨ihp (closed_none _), iho h⟩⟩
  | negation _ _ _ ih => exact ih (closed_none _)
  | group _ _ closes ih => exact ih (closed_of_closes _ (.inl closes))
  | constant _ _ _ _ _ => exact List.forall_mem_nil _
  | call _ _ _ _ _ _ ih => exact ih trivial
  | number _ _ _ _ _ => exact List.forall_mem_nil _
  | noArgument _ => exact List.forall_mem_nil _
  | someArguments _ ih => exact ih trivial
  | lastArgument _ closes ih => exact ih (closed_of_closes _ (.inl closes))
  | nextArgument _ separates _ iha ihl =>
      exact List.forall_mem_append.mpr ⟨iha (closed_of_closes _ (.inr separates)), ihl trivial⟩

end Derivation

end Grammar

end Calculator
