import Calculator.Parser.Expression
import Calculator.Proofs.Grammar.Unambiguous

/-!
The parser follows the derivations. Where the tokens in front of a cursor derive from a symbol and
what follows them ends it, the parser of the symbol reads the value of the derivation and stops
behind it if the nesting of the derivation fits into its room, and otherwise finds the nesting too
deep at one of the tokens.
-/

namespace Calculator

variable {σ : Type} [TokenSource σ]

/-- The tokens from the one in view to the end of input, with no unknown character among them. -/
inductive Cursor.Ahead : Cursor σ → List Token → Prop where
  | finish {c : Cursor σ} (hend : c.token.kind = .endOfInput) : Ahead c []
  | token {c : Cursor σ} {t : Token} {behind : σ} {rest : List Token}
      (hend : c.token.kind ≠ .endOfInput) (hnext : TokenSource.next c.source = (.ok t, behind))
      (hrest : Ahead ⟨t, behind⟩ rest) : Ahead c (c.token :: rest)

namespace Cursor.Ahead

variable {c : Cursor σ} {t : Token} {rest : List Token}

theorem token_eq (h : c.Ahead (t :: rest)) : c.token = t := by
  cases h
  rfl

/-- The token in view can be passed. -/
theorem read (h : c.Ahead (t :: rest)) :
    ∃ behind hsize, Parser.token c = .ok ⟨t, behind, hsize⟩ ∧ behind.Ahead rest := by
  cases h with
  | token hend hnext hrest =>
      unfold Parser.token
      rw [dif_neg hend, Cursor.ofSource_of_next_ok hnext]
      exact ⟨_, _, rfl, hrest⟩

/-- A kind of token is in view exactly when a token of that kind comes first. -/
theorem kind_eq_iff (h : c.Ahead rest) {kind : Token.Kind} (hkind : kind ≠ .endOfInput) :
    c.token.kind = kind ↔ ∃ t ∈ rest.head?, t.kind = kind := by
  cases h with
  | finish hend =>
      rw [hend]
      simp [hkind.symm]
  | token => simp

end Cursor.Ahead

namespace Grammar

open Calculator.Parser

/-- The result of reading a value with limited room from the tokens `before` it to the tokens
`after` it. -/
inductive Reaches (room : Nat) {α : Type} {n : Nat} (before after : List Token) (value : α)
    (nesting : Nat) : Except SyntaxError (Parsed σ α n) → Prop where
  | ok (rest : Cursor σ) (hsize : rest.size < n) (hrest : rest.Ahead after)
      (hroom : nesting ≤ room) : Reaches room before after value nesting (.ok ⟨value, rest, hsize⟩)
  | tooDeep (t : Token) (ht : t ∈ before) (hroom : room < nesting) :
      Reaches room before after value nesting (.error (.nestingTooDeep t.line))

namespace Reaches

variable {α β : Type} {room m n p q : Nat} {before middle after : List Token} {v : α} {w : β}
  {x : Except SyntaxError (Parsed σ α m)}
  {f : Parsed σ α m → Except SyntaxError (Parsed σ β n)}

/-- Reading two values one after the other takes the greater of the two nestings. -/
theorem bind (hx : Reaches room before middle v p x) (hsuffix : middle <:+ before)
    (hf : ∀ rest hsize, rest.Ahead middle →
      Reaches room middle after w q (f ⟨v, rest, hsize⟩)) :
    Reaches room before after w (max p q) (x >>= f) := by
  cases hx with
  | ok rest hsize hrest hp =>
      have hnext := hf rest hsize hrest
      change Reaches room before after w (max p q) (f ⟨v, rest, hsize⟩)
      generalize f ⟨v, rest, hsize⟩ = y at hnext
      cases hnext with
      | ok behind hsize hrest hq => exact .ok behind hsize hrest (Nat.max_le.mpr ⟨hp, hq⟩)
      | tooDeep t ht hq =>
          exact .tooDeep t (hsuffix.subset ht) (Nat.lt_of_lt_of_le hq (Nat.le_max_right p q))
  | tooDeep t ht hp => exact .tooDeep t ht (Nat.lt_of_lt_of_le hp (Nat.le_max_left p q))

/-- A value can be changed after it has been read. -/
theorem map (hx : Reaches room before after v p x)
    (hf : ∀ rest hsize, ∃ hsize', f ⟨v, rest, hsize⟩ = .ok ⟨w, rest, hsize'⟩) :
    Reaches room before after w p (x >>= f) := by
  cases hx with
  | ok rest hsize hrest hp =>
      obtain ⟨hsize', heq⟩ := hf rest hsize
      change Reaches room before after w p (f ⟨v, rest, hsize⟩)
      rw [heq]
      exact .ok rest hsize' hrest hp
  | tooDeep t ht hp => exact .tooDeep t ht hp

/-- Passing the token in view takes no room. -/
theorem token {c : Cursor σ} {t : Token} {rest : List Token}
    {f : Parsed σ Token c.size → Except SyntaxError (Parsed σ β n)}
    (hc : c.Ahead (t :: rest))
    (hf : ∀ behind hsize, behind.Ahead rest →
      Reaches room rest after w q (f ⟨t, behind, hsize⟩)) :
    Reaches room (t :: rest) after w q (Parser.token c >>= f) := by
  obtain ⟨behind, hsize, heq, hbehind⟩ := hc.read
  have hbind := bind (m := c.size) (p := 0) (.ok behind hsize hbehind (Nat.zero_le room))
    (List.suffix_cons t rest) hf
  rw [heq]
  rwa [Nat.zero_max] at hbind

/-- One more atom around what is read takes one more atom of room. -/
theorem succ (hx : Reaches room before after v p x) :
    Reaches (room + 1) before after v (p + 1) x := by
  cases hx with
  | ok rest hsize hrest hp => exact .ok rest hsize hrest (Nat.succ_le_succ hp)
  | tooDeep t ht hp => exact .tooDeep t ht (Nat.succ_lt_succ hp)

end Reaches

def phraseParser (atom : Parser σ Expr) : Option Level → Parser σ Expr
  | some .disjunction => expression atom
  | some .conjunction =>
      chain .conjunction atom <| chain .sum atom <| chain .product atom <| chain .power atom atom
  | some .sum => chain .sum atom <| chain .product atom <| chain .power atom atom
  | some .product => chain .product atom <| chain .power atom atom
  | some .power => chain .power atom atom
  | none => atom

theorem phraseParser_some (atom : Parser σ Expr) (level : Level) :
    phraseParser atom (some level) = chain level atom (phraseParser atom (stronger? level)) := by
  cases level <;> rfl

def Follows (σ : Type) [TokenSource σ] (room : Nat) (before after : List Token) (nesting : Nat) :
    (s : Symbol) → s.Value → Prop
  | .phrase level, value => ∀ c : Cursor σ, c.Ahead before → Closed level after →
      Reaches room before after value nesting (phraseParser (atom room) level c)
  | .tail level, value => ∀ (c : Cursor σ) (left : Expr) (bound : Nat) (hc : c.size < bound),
      c.Ahead before → Closed (some level) after →
        Reaches room before after (value left) nesting
          (chainFrom level (atom room) (phraseParser (atom room) (stronger? level)) left c hc)
  | .argumentList, value => ∀ (c : Cursor σ) (opening : Token), c.Ahead (opening :: before) →
      Reaches room (opening :: before) after value nesting
        (argumentList (expression (atom room)) c)
  | .arguments, value => ∀ c : Cursor σ, c.Ahead before →
      Reaches room before after value nesting (arguments (expression (atom room)) c)

/-- An atom that is found by its first token takes one more atom of room than what it holds. -/
private theorem follows_atom {room nesting : Nat} {t : Token} {rest after : List Token}
    {value : Expr}
    (h : ∀ inner, room = inner + 1 → ∀ c : Cursor σ, c.Ahead (t :: rest) →
      Reaches inner (t :: rest) after value nesting (atomOver (atom inner) c)) :
    Follows σ room (t :: rest) after (nesting + 1) .atom value := by
  intro c hc _
  cases room with
  | zero =>
      change Reaches 0 _ _ _ _ (.error (.nestingTooDeep c.token.line))
      rw [hc.token_eq]
      exact .tooDeep t List.mem_cons_self (Nat.succ_pos nesting)
  | succ inner => exact (h inner rfl c hc).succ

private theorem joint_eq_none {level : Level} {c : Cursor σ} {rest : List Token}
    (hc : c.Ahead rest) (h : Closed (some level) rest) : level.joint c.token.kind = .none := by
  cases hc with
  | finish hend => rw [hend, Level.joint_endOfInput]
  | token => exact h.joint_eq_none

/-- The parsers follow every derivation whose symbol ends with it. The induction is on the
derivation; the room shrinks where it steps into an atom. -/
theorem Derivation.follows {s : Symbol} {before after : List Token}
    (d : Derivation s before after) (room : Nat) :
    Follows σ room before after d.nesting s d.value := by
  induction d generalizing room with
  | phrase first others ihf iho =>
      intro c hc hclosed
      rw [phraseParser_some]
      refine .bind (ihf room c hc (others.closed_tail hclosed)) first.suffix ?_
      intro rest hsize hrest
      exact iho room rest first.value _ hsize hrest hclosed
  | done =>
      intro c left bound hsize hc hclosed
      rw [chainFrom]
      simp only [joint_eq_none hc hclosed]
      exact .ok c hsize hc (Nat.zero_le room)
  | operator op sign joins operand others ihp iho =>
      intro c left bound hsize hc hclosed
      obtain rfl := hc.token_eq
      rw [chainFrom]
      simp only [joins_iff.mp joins]
      refine .token hc fun behind _ hbehind => ?_
      refine .bind (ihp room behind hbehind (others.closed_tail hclosed)) operand.suffix ?_
      intro rest hsize hrest
      exact iho room rest _ _ _ hrest hclosed
  | adjacency first starts operand others ihp iho =>
      intro c left bound hsize hc hclosed
      obtain rfl := hc.token_eq
      rw [chainFrom]
      simp only [joint_eq_adjacency_iff.mpr ⟨rfl, starts⟩]
      refine .bind (ihp room c hc (closed_none _)) operand.suffix ?_
      intro rest hsize hrest
      exact iho room rest _ _ _ hrest hclosed
  | negation sign minus operand ih =>
      refine follows_atom fun inner _ c hc => ?_
      obtain rfl := hc.token_eq
      simp only [atomOver, minus]
      refine .token hc fun behind _ hbehind => ?_
      exact (ih inner behind hbehind (closed_none _)).map fun _ _ => ⟨_, rfl⟩
  | group opens content closes ih =>
      refine follows_atom fun inner _ c hc => ?_
      obtain rfl := hc.token_eq
      simp only [atomOver, opens]
      refine .token hc fun behind _ hbehind => ?_
      have hcontent := ih inner behind hbehind (closed_of_closes _ (.inl closes))
      rw [← Nat.max_zero content.nesting]
      refine hcontent.bind content.suffix fun rest _ hrest => ?_
      obtain rfl := hrest.token_eq
      simp only [closes, if_true]
      exact .token hrest fun behind _ hbehind => .ok behind _ hbehind (Nat.zero_le inner)
  | constant name c identifier bare known =>
      refine follows_atom fun inner _ c hc => ?_
      obtain rfl := hc.token_eq
      simp only [atomOver, identifier]
      refine .token hc fun behind _ hbehind => ?_
      have hbare : behind.token.kind ≠ .leftParen := by
        rw [Ne, hbehind.kind_eq_iff (by decide)]
        rintro ⟨t, ht, hkind⟩
        exact bare t ht hkind
      simp only [hbare, if_false, known]
      exact .ok behind _ hbehind (Nat.zero_le inner)
  | call name f identifier opens known list ih =>
      refine follows_atom fun inner _ c hc => ?_
      obtain rfl := hc.token_eq
      simp only [atomOver, identifier]
      refine .token hc fun behind _ hbehind => ?_
      obtain rfl := hbehind.token_eq
      simp only [opens, if_true, known]
      exact (ih inner behind _ hbehind).map fun _ _ => ⟨_, rfl⟩
  | number literal x numericType numeral convertible =>
      refine follows_atom fun inner _ c hc => ?_
      obtain rfl := hc.token_eq
      have hnumber : atomOver (atom inner) c = Parser.number c := by
        simp only [List.mem_cons, List.not_mem_nil, or_false] at numeral
        rcases numeral with h | h | h | h <;> simp only [atomOver, h]
      rw [hnumber, Parser.number, if_pos numeral]
      simp only [convertible]
      exact .token hc fun behind _ hbehind => .ok behind _ hbehind (Nat.zero_le inner)
  | noArgument closes =>
      intro c opening hc
      refine .token hc fun behind _ hbehind => ?_
      obtain rfl := hbehind.token_eq
      simp only [closes, if_true]
      exact .token hbehind fun rest _ hrest => .ok rest _ hrest (Nat.zero_le room)
  | someArguments list ih =>
      intro c opening hc
      refine .token hc fun behind _ hbehind => ?_
      have hopen : behind.token.kind ≠ .rightParen := by
        rw [Ne, hbehind.kind_eq_iff (by decide)]
        obtain ⟨t, ht, hkind⟩ := list.starts
        rw [ht]
        rintro ⟨u, hu, hclose⟩
        cases hu
        exact hkind hclose
      simp only [hopen, if_false]
      exact (ih room behind hbehind).map fun _ _ => ⟨_, rfl⟩
  | lastArgument argument closes ih =>
      intro c hc
      rw [arguments]
      have hargument := ih room c hc (closed_of_closes _ (.inl closes))
      rw [nesting, ← Nat.max_zero argument.nesting]
      refine hargument.bind argument.suffix fun rest _ hrest => ?_
      obtain rfl := hrest.token_eq
      simp only [closes]
      exact .token hrest fun behind _ hbehind => .ok behind _ hbehind (Nat.zero_le room)
  | nextArgument argument separates list iha ihl =>
      intro c hc
      rw [arguments]
      have hargument := iha room c hc (closed_of_closes _ (.inr separates))
      refine hargument.bind argument.suffix fun rest _ hrest => ?_
      obtain rfl := hrest.token_eq
      simp only [separates]
      refine .token hrest fun behind _ hbehind => ?_
      exact (ihl room behind hbehind).map fun _ _ => ⟨_, rfl⟩

end Grammar

end Calculator
