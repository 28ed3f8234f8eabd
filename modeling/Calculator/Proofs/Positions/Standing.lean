import Calculator.Proofs.Implicit.Insertion

/-!
Where the items of a scanner stand in the source. Each one reports the place of its own text, which
does not leave its line, and they are reported line by line.
-/

namespace Calculator

/-- The item stands in the text: what it takes up is there, within one line, and the place that is
reported of it is where that starts. -/
def Item.StandsIn (item : Item) (source : List Char) : Prop :=
  '\n' ∉ item.text ∧ ∃ before rest, source = before ++ item.text ++ rest ∧
    item.position = Position.start.advance before

/-- The words stand within the given line of the text. -/
def OnLine (words : List Char) (line : Nat) (source : List Char) : Prop :=
  '\n' ∉ words ∧ ∃ before rest, source = before ++ words ++ rest ∧ line = 1 + before.count '\n'

theorem OnLine.line_bounds {words source : List Char} {line : Nat} (h : OnLine words line source) :
    1 ≤ line ∧ line ≤ 1 + source.count '\n' := by
  obtain ⟨_, before, rest, rfl, rfl⟩ := h
  rw [List.count_append, List.count_append]
  omega

theorem Item.StandsIn.onLine {item : Item} {source : List Char} (h : item.StandsIn source) :
    OnLine item.text item.position.line source := by
  obtain ⟨hline, before, rest, hsource, hposition⟩ := h
  refine ⟨hline, before, rest, hsource, ?_⟩
  rw [hposition, Position.advance_start]

/-- A line of a text, counted from 1. -/
def lineOf? (source : List Char) (line : Nat) : Option (List Char) :=
  (source.splitOn '\n')[line - 1]?

theorem length_splitOn_newline (text : List Char) :
    (text.splitOn '\n').length = text.count '\n' + 1 := by
  induction text with
  | nil => rfl
  | cons c rest ih =>
      rw [List.splitOn_cons_eq_if_modifyHead]
      by_cases hc : c = '\n'
      · subst hc
        simp [ih]
      · simp [hc, ih]

theorem newline_not_mem_lastLine (text : List Char) : '\n' ∉ lastLine text := fun hmem => by
  simpa using List.mem_rtakeWhile_imp hmem

/-- What stands in front of the last line is nothing, or it ends with a newline. -/
theorem fullLines_eq_nil_or (text : List Char) :
    fullLines text = [] ∨ ∃ lines, fullLines text = lines ++ ['\n'] := by
  by_cases h : fullLines text = []
  · exact .inl h
  · refine .inr ⟨(fullLines text).dropLast, ?_⟩
    have hlast : (fullLines text).getLast h = '\n' := by
      have hnot := List.rdropWhile_last_not (fun c => c != '\n') text h
      rw [bne_iff_ne, not_not] at hnot
      exact hnot
    rw [← hlast]
    exact (List.dropLast_append_getLast h).symm

theorem exists_head_splitOn {words : List Char} (h : '\n' ∉ words) (rest : List Char) :
    ∃ behind, ((words ++ rest).splitOn '\n')[0]? = some (words ++ behind) := by
  induction words with
  | nil =>
      obtain ⟨first, others, hlines⟩ := List.exists_cons_of_ne_nil (List.splitOn_ne_nil '\n' rest)
      exact ⟨first, by simp [hlines]⟩
  | cons c words ih =>
      rw [List.mem_cons, not_or] at h
      obtain ⟨hc, hwords⟩ := h
      obtain ⟨behind, hbehind⟩ := ih hwords
      refine ⟨behind, ?_⟩
      rw [List.cons_append, List.splitOn_cons_eq_if_modifyHead, if_neg (by simpa using Ne.symm hc),
        List.getElem?_modifyHead_zero, hbehind]
      rfl

/-- Where words stand behind a text, they are on the line behind its newlines, and behind its last
line. -/
theorem exists_lineOf? (before : List Char) {words : List Char} (h : '\n' ∉ words)
    (rest : List Char) : ∃ behind, lineOf? (before ++ words ++ rest) (1 + before.count '\n') =
      some (lastLine before ++ words ++ behind) := by
  have hlast : '\n' ∉ lastLine before ++ words := by
    rw [List.mem_append]
    exact not_or.mpr ⟨newline_not_mem_lastLine before, h⟩
  obtain ⟨behind, hbehind⟩ := exists_head_splitOn hlast rest
  refine ⟨behind, ?_⟩
  have hsplit := fullLines_append_lastLine before
  rw [lineOf?, Nat.add_sub_cancel_left]
  rcases fullLines_eq_nil_or before with hfull | ⟨lines, hfull⟩
  · rw [hfull, List.nil_append] at hsplit
    rw [hsplit] at hbehind hlast ⊢
    rw [List.count_eq_zero.mpr fun hmem => hlast (List.mem_append_left _ hmem)]
    exact hbehind
  · have hcount : before.count '\n' = (lines.splitOn '\n').length := by
      rw [length_splitOn_newline, ← hsplit, hfull, List.count_append, List.count_append,
        List.count_eq_zero.mpr (newline_not_mem_lastLine before)]
      rfl
    have hsource : before ++ words ++ rest =
        lines ++ '\n' :: (lastLine before ++ words ++ rest) := by
      rw [hfull] at hsplit
      conv_lhs => rw [← hsplit]
      simp
    rw [hsource, List.splitOn_append_cons_self, hcount, List.getElem?_append_right (Nat.le_refl _),
      Nat.sub_self]
    exact hbehind

/-- Words that stand within a line are part of it. -/
theorem OnLine.exists_lineOf? {words source : List Char} {line : Nat} (h : OnLine words line source) :
    ∃ text, lineOf? source line = some text ∧ words <:+: text := by
  obtain ⟨hwords, before, rest, rfl, rfl⟩ := h
  obtain ⟨behind, hline⟩ := Calculator.exists_lineOf? before hwords rest
  exact ⟨_, hline, lastLine before, behind, rfl⟩

/-- The text of an item is that of its piece. -/
theorem Cuts.text_of_mem_items {kind : Piece.Kind} {text rest : List Char} (h : Cuts kind text rest)
    {p : Position} {item : Item} (hitem : item ∈ Lexeme.items ⟨kind, text⟩ p) :
    item.text = text ∧ kind ≠ .newline := by
  cases kind with
  | token kind =>
      rw [Lexeme.items, List.mem_singleton] at hitem
      subst hitem
      exact ⟨String.toList_ofList, Piece.Kind.noConfusion⟩
  | unknown =>
      cases h with
      | pattern _ longest => exact absurd rfl longest.isMatch.kind_ne_unknown
      | unknown _ =>
          rw [Lexeme.items, List.map_singleton, List.mem_singleton] at hitem
          subst hitem
          exact ⟨rfl, Piece.Kind.noConfusion⟩
  | blanks | newline | comment => cases hitem

/-- The pieces in front of an item are the text in front of it. -/
theorem Tokenization.exists_before {source : List Char} {lexemes : List Lexeme}
    (h : Tokenization source lexemes) {p : Position} {item : Item}
    (hitem : item ∈ itemsFrom p lexemes) :
    '\n' ∉ item.text ∧ ∃ before rest, source = before ++ item.text ++ rest ∧
      item.position = p.advance before := by
  induction h generalizing p with
  | nil => cases hitem
  | @cons kind text rest lexemes first others ih =>
      rcases List.mem_append.mp hitem with hitem | hitem
      · obtain ⟨htext, hkind⟩ := first.text_of_mem_items hitem
        rw [htext]
        exact ⟨first.newline_not_mem hkind, [], rest, rfl, Lexeme.position_of_mem_items hitem⟩
      · obtain ⟨hline, before, behind, rfl, hposition⟩ := ih hitem
        refine ⟨hline, text ++ before, behind, by simp only [List.append_assoc], ?_⟩
        rw [hposition, Position.advance_append]

namespace Scanner

variable {source : String}

/-- Every item stands in the source, and the end of input behind all of it. -/
theorem standsIn_of_mem {item : Item} (h : item ∈ (ofString source).itemList.toList) :
    item.StandsIn source.toList := by
  obtain ⟨lexemes, hlexemes⟩ := Tokenization.exists_of_source source.toList
  rw [ofString, itemList_of_tokenization hlexemes, ItemList.toList] at h
  rcases List.mem_append.mp h with h | h
  · exact hlexemes.exists_before h
  · rw [List.mem_singleton] at h
    subst h
    refine ⟨List.not_mem_nil, source.toList, [], ?_, rfl⟩
    rw [List.append_nil]
    exact (List.append_nil _).symm

/-- The items are reported line by line. -/
theorem pairwise_line (source : String) :
    (ofString source).itemList.items.Pairwise fun item other =>
      item.position.line ≤ other.position.line := by
  obtain ⟨lexemes, hlexemes⟩ := Tokenization.exists_of_source source.toList
  rw [ofString, itemList_of_tokenization hlexemes]
  refine hlexemes.pairwise_before.imp fun hbefore => ?_
  rcases hbefore with hline | ⟨hline, _⟩
  · exact Nat.le_of_lt hline
  · exact Nat.le_of_eq hline

end Scanner

end Calculator
