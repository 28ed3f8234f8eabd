import Calculator.Proofs.Grammar.Soundness

/-!
The texts that the parser accepts are those whose tokens derive from the grammar with no more than
the permitted nesting, and the tree it gives is the value of their only derivation.
-/

namespace Calculator

/-- The tokens in front of a scanner are the items it goes on to hand out. -/
theorem Scanner.items_of_ahead {c : Cursor Scanner} {tokens : List Token} (h : c.Ahead tokens)
    {s : Scanner} (hnext : s.next = (.ok c.token, c.source)) :
    s.itemList.items = tokens.map .ok := by
  induction h generalizing s with
  | finish hend =>
      rw [itemList_of_next_end hnext hend]
      rfl
  | token hend hbehind _ ih =>
      rw [itemList_of_next_item hnext (by simpa [Item.isEnd] using hend)]
      exact congrArg (List.cons _) (ih hbehind)

theorem Scanner.ahead_of_items {tokens : List Token} {s : Scanner}
    (h : s.itemList.items = tokens.map .ok) :
    ∃ t behind, s.next = (.ok t, behind) ∧ Cursor.Ahead ⟨t, behind⟩ tokens := by
  induction tokens generalizing s with
  | nil =>
      cases hnext : s.next with
      | mk item behind =>
          cases item with
          | error found =>
              rw [itemList_of_next_item hnext rfl] at h
              cases h
          | ok t =>
              refine ⟨t, behind, rfl, .finish ?_⟩
              by_cases hend : t.kind = .endOfInput
              · exact hend
              · rw [itemList_of_next_item hnext (by simpa [Item.isEnd] using hend)] at h
                cases h
  | cons t rest ih =>
      cases hnext : s.next with
      | mk item behind =>
          cases hend : item.isEnd with
          | false =>
              rw [itemList_of_next_item hnext hend] at h
              obtain ⟨hitem, hrest⟩ := List.cons.inj h
              subst hitem
              obtain ⟨u, after, hafter, hahead⟩ := ih hrest
              exact ⟨t, behind, rfl, .token (by simpa [Item.isEnd] using hend) hafter hahead⟩
          | true =>
              cases item with
              | error found => cases hend
              | ok u =>
                  rw [itemList_of_next_end hnext (by simpa [Item.isEnd] using hend)] at h
                  cases h

namespace Grammar

/-- A supply whose tokens derive is read as the value of the derivation if there is room for its
nesting, and otherwise is nested too deeply at one of its tokens. -/
theorem whole_of_ahead {σ : Type} [TokenSource σ] {source : σ} {c : Cursor σ}
    {tokens : List Token} (hnext : TokenSource.next source = (.ok c.token, c.source))
    (hahead : c.Ahead tokens) (d : Derivation .expression tokens []) (room : Nat) :
    (d.nesting ≤ room → Parser.whole room source = .ok d.value) ∧
      (room < d.nesting →
        ∃ t ∈ tokens, Parser.whole room source = .error (.nestingTooDeep t.line)) := by
  have hreaches := d.follows room c hahead (closed_nil _)
  change Reaches room tokens [] d.value d.nesting (Parser.expression (Parser.atom room) _)
    at hreaches
  unfold Parser.whole
  rw [Cursor.ofSource_of_next_ok hnext]
  simp only [bind, Except.bind]
  generalize Parser.expression (Parser.atom room) c = x at hreaches ⊢
  cases hreaches with
  | ok rest hsize hrest hroom =>
      cases hrest with
      | finish hend =>
          refine ⟨fun _ => ?_, fun hlt => absurd hroom (Nat.not_le_of_lt hlt)⟩
          simp only [hend, if_true]
          rfl
  | tooDeep u hu hroom =>
      exact ⟨fun hle => absurd hle (Nat.not_le_of_lt hroom), fun _ => ⟨u, hu, rfl⟩⟩

/-- A text whose tokens derive is read as the value of the derivation if there is room for its
nesting, and otherwise is nested too deeply at one of its tokens. -/
theorem whole_of_derivation {s : Scanner} {tokens : List Token}
    (h : s.itemList.items = tokens.map .ok) (d : Derivation .expression tokens []) (room : Nat) :
    (d.nesting ≤ room → Parser.whole room s = .ok d.value) ∧
      (room < d.nesting → ∃ t ∈ tokens, Parser.whole room s = .error (.nestingTooDeep t.line)) := by
  obtain ⟨t, behind, hnext, hahead⟩ := Scanner.ahead_of_items h
  exact whole_of_ahead hnext hahead d room

/-- What a text is read as is the value of a derivation of all its tokens. -/
theorem derivation_of_whole {s : Scanner} {room : Nat} {e : Expr}
    (h : Parser.whole room s = .ok e) :
    ∃ tokens, s.itemList.items = tokens.map .ok ∧
      ∃ d : Derivation .expression tokens [], d.nesting ≤ room ∧ d.value = e := by
  cases hnext : s.next with
  | mk item behind =>
      unfold Parser.whole at h
      cases item with
      | error found =>
          rw [Cursor.ofSource_of_next_error (show TokenSource.next s = _ from hnext)] at h
          cases h
      | ok t =>
          rw [Cursor.ofSource_of_next_ok (show TokenSource.next s = _ from hnext)] at h
          simp only [bind, Except.bind] at h
          cases hresult :
              Parser.expression (Parser.atom room) (⟨t, behind⟩ : Cursor Scanner) with
          | error found =>
              rw [hresult] at h
              cases h
          | ok r =>
              simp only [hresult] at h
              split at h
              · rename_i hend
                cases h
                obtain ⟨tokens, hahead, d, hd, hroom⟩ := expression_derives hresult hend
                exact ⟨tokens, Scanner.items_of_ahead hahead hnext, d, hroom, hd⟩
              · cases h

/-- A text is read as a tree exactly when its scan holds no unknown character, its tokens derive
from the grammar with at most 128 atoms within one another, and the tree is the value of that
derivation, of which there is only one. -/
theorem parse_eq_ok_iff_derivation (source : String) (e : Expr) :
    (Expr.parse source = .ok e ↔
      ∃ tokens, (Scanner.ofString source).itemList.items = tokens.map .ok ∧
        ∃ d : Derivation .expression tokens [], d.nesting ≤ 128 ∧ d.value = e) ∧
    ∀ (tokens : List Token) (d d' : Derivation .expression tokens []), d = d' := by
  refine ⟨⟨derivation_of_whole, ?_⟩, ?_⟩
  · rintro ⟨tokens, hitems, d, hroom, rfl⟩
    exact (whole_of_derivation hitems d Expr.nestingLimit).1 hroom
  · intro tokens d d'
    cases d.unique d' (closed_nil _) (closed_nil _)
    rfl

end Grammar

end Calculator
