import Calculator.Parser.Transport
import Calculator.Proofs.Lookahead.Outcome
import Calculator.Proofs.Positions.Standing

/-!
What an error is about. Every error of the parser is about one of the items that it is given: it
takes its text and its line from that item. This holds since no reading comes upon anything but the
items of the supply that it starts from.
-/

namespace Calculator

open Calculator.Parser

/-- The item that an error is about: the unknown character, the name that nobody knows, the token at
which the nesting is too deep, or the token at which an error about the grammar is raised. -/
inductive SyntaxError.About : SyntaxError → Item → Prop where
  | unknownCharacter (found : UnknownCharacter) : About (.unknownCharacter found) (.error found)
  | unknownIdentifier (name : Token) (identifier : name.kind = .identifier) :
      About (.unknownIdentifier name.text name.line) (.ok name)
  | nestingTooDeep (t : Token) : About (.nestingTooDeep t.line) (.ok t)
  | grammatical {e : SyntaxError} (t : Token) (raised : e.RaisedAt t) : About e (.ok t)

/-- An error and the item that it is about have the same line. -/
theorem SyntaxError.About.line_eq {e : SyntaxError} {item : Item} (h : e.About item) :
    e.line = item.position.line := by
  cases h with
  | unknownCharacter found => rfl
  | unknownIdentifier name identifier => rfl
  | nestingTooDeep t => rfl
  | grammatical t raised => exact raised.line_eq

structure Cursor.Within (supply : List Item) (c : Cursor ItemList) : Prop where
  token_mem : .ok c.token ∈ supply
  behind_subset : c.source.toList ⊆ supply

/-- The next item is on the list, and so is everything behind it. -/
theorem ItemList.mem_of_next {l behind : ItemList} {item : Item}
    (hnext : TokenSource.next l = (item, behind)) :
    item ∈ l.toList ∧ behind.toList ⊆ l.toList := by
  obtain ⟨items, finish⟩ := l
  cases items with
  | nil =>
      cases hnext
      exact ⟨List.mem_cons_self, List.Subset.refl _⟩
  | cons first rest =>
      cases hnext
      exact ⟨List.mem_cons_self, List.subset_cons_self _ _⟩

namespace Reading

variable {supply : List Item} {α β : Type}

/-- What happens where a reading starts from a cursor: it stops within the supply, or with an error
about an item of it. -/
inductive StaysWithin (supply : List Item) (f : Reading ItemList α) (c : Cursor ItemList) :
    Prop where
  | returns {v : α} {stop : Cursor ItemList} (h : f c = .ok (v, stop))
      (within : stop.Within supply) : StaysWithin supply f c
  | fails {e : SyntaxError} {item : Item} (h : f c = .error e) (about : e.About item)
      (mem : item ∈ supply) : StaysWithin supply f c

namespace StaysWithin

variable {f : Reading ItemList α} {g : α → Reading ItemList β} {c : Cursor ItemList}

theorem pure (hc : c.Within supply) (v : α) :
    StaysWithin supply (Pure.pure v : Reading ItemList α) c :=
  .returns rfl hc

theorem throw {e : SyntaxError} {item : Item} (about : e.About item) (mem : item ∈ supply) :
    StaysWithin supply (MonadExcept.throw e : Reading ItemList α) c :=
  .fails rfl about mem

theorem peek_bind {g : Token → Reading ItemList β} (h : StaysWithin supply (g c.token) c) :
    StaysWithin supply (Reading.peek >>= g) c := by
  cases h with
  | returns h within => exact .returns h within
  | fails h about mem => exact .fails h about mem

/-- One reading after the other. -/
theorem bind (hf : StaysWithin supply f c)
    (hg : ∀ v stop, f c = .ok (v, stop) → stop.Within supply → StaysWithin supply (g v) stop) :
    StaysWithin supply (f >>= g) c := by
  have hrun : (f >>= g) c = f c >>= fun r => g r.1 r.2 := rfl
  cases hf with
  | @returns v stop h within =>
      rw [h] at hrun
      cases hg v stop h within with
      | returns h' within' => exact .returns (hrun.trans h') within'
      | fails h' about mem => exact .fails (hrun.trans h') about mem
  | fails h about mem =>
      rw [h] at hrun
      exact .fails hrun about mem

/-- Behind a token comes another item of the supply, which may be an unknown character. -/
theorem token (hc : c.Within supply) (hend : c.token.kind ≠ .endOfInput) :
    StaysWithin supply (of Parser.token : Reading ItemList Token) c := by
  cases hnext : TokenSource.next c.source with
  | mk item behind =>
      obtain ⟨hitem, hbehind⟩ := ItemList.mem_of_next hnext
      have hmem : item ∈ supply := hc.behind_subset hitem
      cases item with
      | error found =>
          have hrun : of Parser.token c = .error (.unknownCharacter found) := by
            unfold of Parser.token
            rw [dif_neg hend, Cursor.ofSource_of_next_error hnext]
            rfl
          exact .fails hrun (.unknownCharacter found) hmem
      | ok t =>
          have hrun : of Parser.token c = .ok (c.token, ⟨t, behind⟩) := by
            unfold of Parser.token
            rw [dif_neg hend, Cursor.ofSource_of_next_ok hnext]
            rfl
          exact .returns hrun ⟨hmem, List.Subset.trans hbehind hc.behind_subset⟩

/-- Passing the token in view before anything else. -/
theorem token_bind {g : Token → Reading ItemList β} (hc : c.Within supply)
    (hend : c.token.kind ≠ .endOfInput)
    (hg : ∀ v (rest : Cursor ItemList), rest.size < c.size → rest.Within supply →
      StaysWithin supply (g v) rest) : StaysWithin supply (of Parser.token >>= g) c :=
  (token hc hend).bind fun v rest h => hg v rest (size_lt_of_eq_ok h)

end StaysWithin

def Bounded (supply : List Item) (p : Parser ItemList α) : Prop :=
  ∀ c : Cursor ItemList, c.Within supply → StaysWithin supply (of p) c

variable {atom operand inner : Parser ItemList Expr} {c : Cursor ItemList}

/-- The loop of a level, by induction on what is left to read. -/
theorem tail_staysWithin (level : Level) (hatom : Bounded supply atom)
    (hoperand : Bounded supply operand) (left : Expr) (c : Cursor ItemList)
    (hc : c.Within supply) : StaysWithin supply (tail level atom operand left) c := by
  induction hn : c.size using Nat.strongRecOn generalizing c left with
  | ind k ih =>
      rw [tail_eq]
      refine .peek_bind ?_
      cases hjoint : level.joint c.token.kind with
      | none => exact .pure hc left
      | operator op =>
          have hend := Level.ne_endOfInput_of_joint hjoint
          refine .token_bind hc hend fun _ rest hsize hrest => ?_
          refine (hoperand rest hrest).bind fun right mid hright hmid => ?_
          exact ih _ (hn ▸ Nat.lt_trans (size_lt_of_eq_ok hright) hsize) _ mid hmid rfl
      | adjacency =>
          refine (hatom c hc).bind fun right mid hright hmid => ?_
          exact ih _ (hn ▸ size_lt_of_eq_ok hright) _ mid hmid rfl

theorem Bounded.chain (level : Level) (hatom : Bounded supply atom)
    (hoperand : Bounded supply operand) : Bounded supply (Parser.chain level atom operand) := by
  intro c hc
  rw [of_chain]
  exact (hoperand c hc).bind fun left mid _ => tail_staysWithin level hatom hoperand left mid

theorem Bounded.expression (hatom : Bounded supply atom) :
    Bounded supply (Parser.expression atom) :=
  hatom.chain _ <| hatom.chain _ <| hatom.chain _ <| hatom.chain _ <| hatom.chain _ hatom

theorem number_staysWithin (hc : c.Within supply)
    (numeral : c.token.kind ∈ [Token.Kind.intLiteral, .floatLiteral, .hexLiteral, .binLiteral]) :
    StaysWithin supply (of (number : Parser ItemList Expr)) c := by
  have hend : c.token.kind ≠ .endOfInput := by
    intro hend
    simp [hend] at numeral
  rw [of_number]
  refine .peek_bind ?_
  rw [if_pos numeral]
  cases hread : Numeral.read? c.token.kind c.token.text.toList with
  | none => exact .throw (.grammatical _ (.invalidNumber numeral hread)) hc.token_mem
  | some literal => exact .token_bind hc hend fun _ _ _ hrest => .pure hrest _

theorem negation_staysWithin (hatom : Bounded supply atom) (hc : c.Within supply)
    (minus : c.token.kind = .minus) : StaysWithin supply (of (negation atom)) c := by
  rw [of_negation]
  refine .peek_bind (.token_bind hc (by simp [minus]) fun _ rest _ hrest => ?_)
  exact (hatom rest hrest).bind fun _ _ _ hmid => .pure hmid _

theorem group_staysWithin (hinner : Bounded supply inner) (hc : c.Within supply)
    (opens : c.token.kind = .leftParen) : StaysWithin supply (of (group inner)) c := by
  rw [of_group]
  refine .token_bind hc (by simp [opens]) fun _ rest _ hrest => ?_
  refine (hinner rest hrest).bind fun content mid _ hmid => .peek_bind ?_
  by_cases closes : mid.token.kind = .rightParen
  · rw [if_pos closes]
    exact .token_bind hmid (by simp [closes]) fun _ _ _ hstop => .pure hstop _
  · rw [if_neg closes]
    exact .throw (.grammatical _ (.expectedClosingParen closes)) hmid.token_mem

theorem Bounded.arguments (hinner : Bounded supply inner) :
    Bounded supply (Parser.arguments inner) := by
  intro c hc
  induction hn : c.size using Nat.strongRecOn generalizing c with
  | ind k ih =>
      rw [of_arguments]
      refine (hinner c hc).bind fun argument mid hargument hmid => .peek_bind ?_
      cases hkind : mid.token.kind
      case rightParen =>
        exact .token_bind hmid (by simp [hkind]) fun _ _ _ hstop => .pure hstop _
      case comma =>
        refine .token_bind hmid (by simp [hkind]) fun _ rest hsize hrest => ?_
        have hlt : rest.size < k := hn ▸ Nat.lt_trans hsize (size_lt_of_eq_ok hargument)
        exact (ih _ hlt rest hrest rfl).bind fun _ _ _ hstop => .pure hstop _
      case endOfInput =>
        exact .throw (.grammatical _ (.expectedClosingParen (by simp [hkind]))) hmid.token_mem
      all_goals
        exact .throw (.grammatical _ (.unexpectedToken (by simp [hkind]))) hmid.token_mem

theorem argumentList_staysWithin (hinner : Bounded supply inner) (hc : c.Within supply)
    (opens : c.token.kind = .leftParen) : StaysWithin supply (of (argumentList inner)) c := by
  rw [of_argumentList]
  refine .token_bind hc (by simp [opens]) fun _ rest _ hrest => .peek_bind ?_
  by_cases closes : rest.token.kind = .rightParen
  · rw [if_pos closes]
    exact .token_bind hrest (by simp [closes]) fun _ _ _ hstop => .pure hstop _
  · rw [if_neg closes]
    exact hinner.arguments rest hrest

/-- A name is found to be unknown when the token behind it is in view already. -/
theorem named_staysWithin (hinner : Bounded supply inner) (hc : c.Within supply)
    (identifier : c.token.kind = .identifier) : StaysWithin supply (of (named inner)) c := by
  rw [of_named]
  refine .peek_bind (.token_bind hc (by simp [identifier]) fun _ rest _ hrest => .peek_bind ?_)
  by_cases opens : rest.token.kind = .leftParen
  · rw [if_pos opens]
    cases NamedFunction.ofName? c.token.text with
    | none => exact .throw (.unknownIdentifier _ identifier) hc.token_mem
    | some f =>
        refine (argumentList_staysWithin hinner hrest opens).bind ?_
        exact fun _ _ _ hstop => .pure hstop _
  · rw [if_neg opens]
    cases Constant.ofName? c.token.text with
    | none => exact .throw (.unknownIdentifier _ identifier) hc.token_mem
    | some constant => exact .pure hrest _

/-- The atoms, by induction on the room. -/
theorem bounded_atom (supply : List Item) (room : Nat) : Bounded supply (Parser.atom room) := by
  induction room with
  | zero =>
      intro c hc
      rw [of_atom_zero]
      exact .peek_bind (.throw (.nestingTooDeep _) hc.token_mem)
  | succ room ih =>
      intro c hc
      change StaysWithin supply (of (atomOver (Parser.atom room))) c
      rw [of_atomOver]
      refine .peek_bind ?_
      cases hkind : c.token.kind
      case minus => exact negation_staysWithin ih hc hkind
      case leftParen => exact group_staysWithin ih.expression hc hkind
      case identifier => exact named_staysWithin ih.expression hc hkind
      case intLiteral | floatLiteral | hexLiteral | binLiteral =>
        exact number_staysWithin hc (by simp [hkind])
      case endOfInput =>
        exact .throw (.grammatical _ (.unexpectedEndOfInput hkind)) hc.token_mem
      all_goals exact .throw (.grammatical _ (.unexpectedToken (by simp [hkind]))) hc.token_mem

theorem everything_staysWithin (room : Nat) (hc : c.Within supply) :
    StaysWithin supply (everything room) c := by
  refine ((bounded_atom supply room).expression c hc).bind fun v stop _ hstop => .peek_bind ?_
  by_cases hend : stop.token.kind = .endOfInput
  · rw [if_pos hend]
    exact .pure hstop v
  · rw [if_neg hend]
    exact .throw (.grammatical _ (.unexpectedTrailingTokens hend)) hstop.token_mem

end Reading

/-- Every error of the parser is about an item of its supply. -/
theorem Parser.exists_about_of_whole {room : Nat} {l : ItemList} {e : SyntaxError}
    (h : whole room l = .error e) : ∃ item ∈ l.toList, e.About item := by
  rw [Reading.whole_eq] at h
  cases hnext : TokenSource.next l with
  | mk item behind =>
      obtain ⟨hitem, hbehind⟩ := ItemList.mem_of_next hnext
      cases item with
      | error found =>
          rw [Cursor.ofSource_of_next_error hnext] at h
          cases h
          exact ⟨.error found, hitem, .unknownCharacter found⟩
      | ok t =>
          rw [Cursor.ofSource_of_next_ok hnext] at h
          change (Reading.everything room (⟨t, behind⟩ : Cursor ItemList)).map Prod.fst = _ at h
          have hc : Cursor.Within l.toList ⟨t, behind⟩ := ⟨hitem, hbehind⟩
          cases Reading.everything_staysWithin room hc with
          | returns hrun _ =>
              rw [hrun] at h
              cases h
          | fails hrun about mem =>
              rw [hrun] at h
              cases h
              exact ⟨_, mem, about⟩

/-- A text that is not parsed fails by an error about an item of its scanner. -/
theorem Expr.exists_about_of_parse {source : String} {e : SyntaxError}
    (h : parse source = .error e) :
    ∃ item ∈ (Scanner.ofString source).itemList.toList, e.About item := by
  rw [parse, ← ofTokens_itemList] at h
  exact Parser.exists_about_of_whole h

end Calculator
