import Calculator.Token.Piece
import Calculator.Token.Source

/-!
Scanning a source text on demand. Blanks, newlines and comments are passed over, an unknown
character is reported alone, and after the last character every further item is the end of input.
-/

namespace Calculator

/-- A source text from some place on. -/
structure Scanner where
  rest : List Char
  position : Position

namespace Scanner

def ofString (source : String) : Scanner :=
  ⟨source.toList, .start⟩

def after (s : Scanner) (piece : Piece) : Scanner :=
  ⟨piece.rest, s.position.advance piece.text⟩

def next (s : Scanner) : Item × Scanner :=
  match _h : s.rest with
  | [] => (.ok (.endOfInput s.position), s)
  | c :: cs =>
      let piece := Piece.first c cs
      match piece.kind with
      | .token kind => (.ok ⟨kind, String.ofList piece.text, s.position⟩, s.after piece)
      | .unknown => (.error ⟨c, s.position⟩, s.after piece)
      | _ => (s.after piece).next
termination_by s.rest.length
decreasing_by
  rw [_h]
  exact Piece.length_rest_first c cs

theorem length_rest_after_first (s : Scanner) (c : Char) (cs : List Char) :
    (s.after (Piece.first c cs)).rest.length < (c :: cs).length :=
  Piece.length_rest_first c cs

/-- An item before the end of input uses up some of the text. -/
theorem length_rest_next_lt (s : Scanner) (h : s.next.1.isEnd = false) :
    s.next.2.rest.length < s.rest.length := by
  fun_induction next s with
  | case1 s _ => simp [Item.isEnd, Token.endOfInput] at h
  | case2 s c cs hrest piece kind _ =>
      rw [hrest]
      exact length_rest_after_first s c cs
  | case3 s c cs hrest piece _ =>
      rw [hrest]
      exact length_rest_after_first s c cs
  | case4 s c cs hrest piece _ _ ih =>
      have hshort := length_rest_after_first s c cs
      have hnext := ih h
      rw [hrest]
      exact Nat.lt_trans hnext hshort

/-- The end of input has no text, and the scanner stays before it. -/
theorem next_of_kind_endOfInput {s behind : Scanner} {t : Token} (h : s.next = (.ok t, behind))
    (hend : t.kind = .endOfInput) :
    t = .endOfInput t.position ∧ behind.next = (.ok t, behind) := by
  fun_induction next s with
  | case1 s hrest =>
      cases h
      refine ⟨rfl, ?_⟩
      rw [next.eq_def]
      split
      · rfl
      · rename_i hcons
        rw [hrest] at hcons
        cases hcons
  | case2 s c cs hrest piece kind hkind =>
      cases h
      exact absurd (hend ▸ hkind) (Piece.first_kind_ne_endOfInput c cs)
  | case3 s c cs hrest piece _ => cases h
  | case4 s c cs hrest piece _ _ ih => exact ih h

instance : TokenSource Scanner where
  next := next
  remaining s := s.rest.length
  remaining_next := length_rest_next_lt

/-- The next item, or nothing at the end of input. -/
def next? (s : Scanner) : Option Item × Scanner :=
  match s.next with
  | (item, behind) => (if item.isEnd then none else some item, behind)

def itemList (s : Scanner) : ItemList :=
  match _h : s.next with
  | (.ok t, behind) =>
      if _hend : t.kind = .endOfInput then ⟨[], t.position⟩
      else behind.itemList.cons (.ok t)
  | (.error found, behind) => behind.itemList.cons (.error found)
termination_by s.rest.length
decreasing_by
  all_goals
    have hlt := length_rest_next_lt s
    rw [_h] at hlt
    apply hlt
    simp [Item.isEnd]
  exact _hend

theorem itemList_of_next_end {s behind : Scanner} {t : Token} (h : s.next = (.ok t, behind))
    (hend : t.kind = .endOfInput) : s.itemList = ⟨[], t.position⟩ := by
  rw [itemList.eq_def]
  split <;> rename_i h' <;> cases h.symm.trans h'
  exact dif_pos hend

theorem itemList_of_next_item {s behind : Scanner} {item : Item} (h : s.next = (item, behind))
    (hend : item.isEnd = false) : s.itemList = behind.itemList.cons item := by
  rw [itemList.eq_def]
  split <;> rename_i h' <;> cases h.symm.trans h'
  · exact dif_neg (by simpa [Item.isEnd] using hend)
  · rfl

/-- Asking a scanner for items is asking the list of its items for them. -/
theorem next_itemList (s : Scanner) :
    s.itemList.next = (s.next.1, s.next.2.itemList) := by
  cases h : s.next with
  | mk item behind =>
      cases hend : item.isEnd with
      | false =>
          rw [itemList_of_next_item h hend]
          rfl
      | true =>
          cases item with
          | error found => cases hend
          | ok t =>
              have hkind : t.kind = .endOfInput := by simpa [Item.isEnd] using hend
              obtain ⟨htext, hagain⟩ := next_of_kind_endOfInput h hkind
              rw [itemList_of_next_end h hkind]
              dsimp only
              rw [itemList_of_next_end hagain hkind]
              simp only [ItemList.next]
              rw [← htext]

end Scanner

end Calculator
