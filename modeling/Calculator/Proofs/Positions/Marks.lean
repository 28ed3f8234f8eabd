import Calculator.Proofs.Positions.Place

/-!
A scanner that keeps marks in place of a position: the number of the current line and the byte at
which it starts. Only newlines move the marks, and the column of an item is counted in the part of
the source between the start of the line and the item. The marks are kept right over blanks,
comments, newlines and unknown characters, so that this part can always be cut out, and what is
reported is what the scanner reports that carries the place along.
-/

namespace Calculator

/-- The part of a text between two byte offsets. There is none where an offset lies within a
character or behind the text, or where the second offset comes first. -/
def textBetween? (text : String) (first last : Nat) : Option String := do
  let p ← text.pos? ⟨first⟩
  let q ← text.pos? ⟨last⟩
  let part ← text.slice? p q
  return part.copy

private theorem pos?_eq_some {text : String} {offset : Nat}
    (h : String.Pos.Raw.IsValid text ⟨offset⟩) :
    text.pos? ⟨offset⟩ = some (text.pos ⟨offset⟩ h) := by
  simp [String.pos?, String.Slice.pos?, String.pos, h]

theorem textBetween?_append (first middle last : String) :
    textBetween? (first ++ middle ++ last) first.utf8ByteSize (first ++ middle).utf8ByteSize =
      some middle := by
  have hfirst : String.Pos.Raw.IsValid (first ++ middle ++ last) ⟨first.utf8ByteSize⟩ :=
    String.Pos.Raw.isValid_iff_exists_append.mpr ⟨first, middle ++ last, String.append_assoc, rfl⟩
  have hlast : String.Pos.Raw.IsValid (first ++ middle ++ last) ⟨(first ++ middle).utf8ByteSize⟩ :=
    String.Pos.Raw.isValid_iff_exists_append.mpr ⟨first ++ middle, last, rfl, rfl⟩
  have hle : (first ++ middle ++ last).pos _ hfirst ≤ (first ++ middle ++ last).pos _ hlast := by
    simp [String.Pos.le_iff, String.Pos.Raw.le_iff]
  rw [textBetween?, pos?_eq_some hfirst, pos?_eq_some hlast]
  simp only [Option.bind_eq_bind, Option.bind_some, String.slice?, dif_pos hle]
  apply congrArg some
  apply String.toByteArray_inj.mp
  rw [String.toByteArray_copy_slice]
  calc
    _ = (first.toByteArray ++ (middle ++ last).toByteArray).extract (first.utf8ByteSize + 0)
        (first.utf8ByteSize + middle.utf8ByteSize) := by
      simp only [String.offset_pos, String.toByteArray_append, ByteArray.append_assoc,
        String.utf8ByteSize_append, Nat.add_zero]
    _ = (middle ++ last).toByteArray.extract 0 middle.utf8ByteSize :=
      ByteArray.extract_append_size_add' String.size_toByteArray.symm
    _ = middle.toByteArray := by
      rw [String.toByteArray_append]
      exact ByteArray.extract_append_eq_left String.size_toByteArray.symm

/-- A lexer keeps the bytes between which its last piece lies, the text behind that piece, the
number of the current line and the byte at which that line starts. It also notes when it has
reached the end of the source. -/
structure Lexer where
  source : String
  first : Nat
  last : Nat
  rest : List Char
  line : Nat
  lineStart : Nat
  exhausted : Bool

namespace Lexer

def ofString (source : String) : Lexer :=
  ⟨source, 0, 0, source.toList, 1, 0, false⟩

def past (l : Lexer) (piece : Piece) : Lexer :=
  { l with
    first := l.last
    last := l.last + (String.ofList piece.text).utf8ByteSize
    rest := piece.rest }

def newLine (l : Lexer) : Lexer :=
  { l with line := l.line + 1, lineStart := l.last }

/-- Goes on behind the next piece that is to be reported, a token or an unknown character, if there
is one. -/
def cut (l : Lexer) : Option (Except Unit Token.Kind) × Lexer :=
  match _h : l.rest with
  | [] => (none, { l with first := l.last })
  | c :: cs =>
      let piece := Piece.first c cs
      match piece.kind with
      | .token kind => (some (.ok kind), l.past piece)
      | .unknown => (some (.error ()), l.past piece)
      | .newline => (l.past piece).newLine.cut
      | .blanks | .comment => (l.past piece).cut
termination_by l.rest.length
decreasing_by
  all_goals
    rw [_h]
    exact Piece.length_rest_first c cs

def slice (l : Lexer) : String :=
  (textBetween? l.source l.first l.last).getD ""

def place (l : Lexer) (offset : Nat) : Position :=
  ⟨l.line, ((textBetween? l.source l.lineStart offset).map String.length).getD 0 + 1⟩

def endOfInput (l : Lexer) : Token :=
  .endOfInput (l.place l.source.utf8ByteSize)

def next (l : Lexer) : Item × Lexer :=
  if l.exhausted then (.ok l.endOfInput, l)
  else
    match l.cut with
    | (some (.ok kind), behind) =>
        (.ok ⟨kind, behind.slice, behind.place behind.first⟩, behind)
    | (some (.error _), behind) =>
        (.error ⟨behind.slice.toList.headD '\x00', behind.place behind.first⟩, behind)
    | (none, behind) => (.ok behind.endOfInput, { behind with exhausted := true })

def afterCalls (l : Lexer) : Nat → Lexer
  | 0 => l
  | n + 1 => l.next.2.afterCalls n

/-- The marks are right behind the text that was passed. -/
structure Marked (l : Lexer) (passed : List Char) : Prop where
  source_eq : l.source = String.ofList (passed ++ l.rest)
  last_eq : l.last = (String.ofList passed).utf8ByteSize
  line_eq : l.line = 1 + passed.count '\n'
  lineStart_eq : l.lineStart = (String.ofList (fullLines passed)).utf8ByteSize
  finished : l.exhausted = true → l.rest = [] ∧ l.first = l.last

namespace Marked

variable {l : Lexer} {passed : List Char} {c : Char} {cs : List Char}

theorem source_eq_append (h : l.Marked passed) (hrest : l.rest = c :: cs) :
    l.source =
      String.ofList (passed ++ (Piece.first c cs).text ++ (Piece.first c cs).rest) := by
  rw [h.source_eq, hrest, List.append_assoc, Piece.first_text_append_rest]

/-- A piece without a newline leaves the marks where they are. -/
theorem past (h : l.Marked passed) (hrest : l.rest = c :: cs)
    (hline : '\n' ∉ (Piece.first c cs).text) :
    (l.past (Piece.first c cs)).Marked (passed ++ (Piece.first c cs).text) where
  source_eq := h.source_eq_append hrest
  last_eq := by
    rw [String.ofList_append, String.utf8ByteSize_append, ← h.last_eq]
    rfl
  line_eq := by
    rw [List.count_append, List.count_eq_zero_of_not_mem hline]
    exact h.line_eq
  lineStart_eq := by
    rw [fullLines_append_of_not_mem passed hline]
    exact h.lineStart_eq
  finished := fun hexhausted => by
    rw [(h.finished hexhausted).1] at hrest
    cases hrest

/-- The end of the source is found behind the last character only. -/
theorem not_exhausted (h : l.Marked passed) (hrest : l.rest = c :: cs) : l.exhausted = false := by
  cases hexhausted : l.exhausted with
  | false => rfl
  | true =>
      rw [(h.finished hexhausted).1] at hrest
      cases hrest

/-- A newline moves the marks to the line behind it. -/
theorem newLine (h : l.Marked passed) (hrest : l.rest = '\n' :: cs) :
    (l.past (Piece.first '\n' cs)).newLine.Marked (passed ++ ['\n']) := by
  have hsource := h.source_eq_append hrest
  rw [Piece.first_newline] at hsource ⊢
  have hlast : l.last + (String.ofList ['\n']).utf8ByteSize =
      (String.ofList (passed ++ ['\n'])).utf8ByteSize := by
    rw [String.ofList_append, String.utf8ByteSize_append, ← h.last_eq]
  refine ⟨hsource, hlast, ?_, ?_, fun hexhausted => ?_⟩
  · rw [List.count_append, ← Nat.add_assoc, ← h.line_eq]
    rfl
  · rw [fullLines_concat_newline]
    exact hlast
  · rw [(h.finished hexhausted).1] at hrest
    cases hrest

/-- The start of the line can be cut out up to the piece at its end, and the place of the piece is
the true one. -/
theorem place_eq {text : List Char} (h : l.Marked (passed ++ text)) (hline : '\n' ∉ text) :
    textBetween? l.source l.lineStart (String.ofList passed).utf8ByteSize =
        some (String.ofList (lastLine passed)) ∧
      l.place (String.ofList passed).utf8ByteSize = Position.start.advance passed := by
  have hcut : textBetween? l.source l.lineStart (String.ofList passed).utf8ByteSize =
      some (String.ofList (lastLine passed)) := by
    have happend := textBetween?_append (String.ofList (fullLines passed))
      (String.ofList (lastLine passed)) (String.ofList (text ++ l.rest))
    rw [← String.ofList_append, ← String.ofList_append, fullLines_append_lastLine,
      ← List.append_assoc] at happend
    rw [h.source_eq, h.lineStart_eq, fullLines_append_of_not_mem passed hline]
    exact happend
  refine ⟨hcut, ?_⟩
  rw [place, hcut, Position.advance_start, h.line_eq, List.count_append,
    List.count_eq_zero_of_not_mem hline]
  simp [Nat.add_comm]

theorem slice_eq {text : List Char} (h : l.Marked (passed ++ text))
    (hfirst : l.first = (String.ofList passed).utf8ByteSize) : l.slice = String.ofList text := by
  have happend := textBetween?_append (String.ofList passed) (String.ofList text)
    (String.ofList l.rest)
  rw [← String.ofList_append, ← String.ofList_append] at happend
  rw [slice, h.source_eq, hfirst, h.last_eq, happend]
  rfl

end Marked

section Cutting

variable {l : Lexer} {c : Char} {cs : List Char}

theorem cut_nil (h : l.rest = []) : l.cut = (none, { l with first := l.last }) := by
  rw [cut.eq_def]
  split
  · rfl
  · rename_i hrest
    rw [h] at hrest
    cases hrest

theorem cut_cons (h : l.rest = c :: cs) : l.cut =
    match (Piece.first c cs).kind with
    | .token kind => (some (.ok kind), l.past (Piece.first c cs))
    | .unknown => (some (.error ()), l.past (Piece.first c cs))
    | .newline => (l.past (Piece.first c cs)).newLine.cut
    | .blanks | .comment => (l.past (Piece.first c cs)).cut := by
  rw [cut.eq_def]
  split
  · rename_i hrest
    rw [h] at hrest
    cases hrest
  · rename_i hrest
    cases h.symm.trans hrest
    rfl

/-- What a lexer reports is what it cuts. -/
theorem next_congr {l' : Lexer} (h : l.exhausted = false) (h' : l'.exhausted = false)
    (hcut : l.cut = l'.cut) : l.next = l'.next := by
  simp [next, h, h', hcut]

end Cutting

/-- The lexer has just cut the text of an item, which starts behind the other text. -/
structure Reports (l : Lexer) (before : List Char) (item : Item) : Prop where
  marked : l.Marked (before ++ item.text)
  first_eq : l.first = (String.ofList before).utf8ByteSize
  newline_not_mem : '\n' ∉ item.text
  position_eq : item.position = Position.start.advance before

/-- Behind the last piece the end of input is reported, however often. -/
theorem Marked.reports_end {l : Lexer} {passed : List Char} (h : l.Marked passed)
    (hrest : l.rest = []) (hfirst : l.first = l.last) :
    l.Reports passed (.ok l.endOfInput) ∧
      l.endOfInput = .endOfInput (Position.start.advance passed) := by
  have hmarked : l.Marked (passed ++ []) := (List.append_nil passed).symm ▸ h
  have hplace := (hmarked.place_eq List.not_mem_nil).2
  have hend : l.endOfInput = .endOfInput (Position.start.advance passed) := by
    rw [endOfInput, h.source_eq, hrest, List.append_nil, hplace]
  refine ⟨⟨hmarked, hfirst.trans h.last_eq, List.not_mem_nil, ?_⟩, hend⟩
  rw [hend]
  rfl

section Reporting

variable {l : Lexer} {passed : List Char} {c : Char} {cs : List Char}

@[simp] theorem rest_past (l : Lexer) (piece : Piece) : (l.past piece).rest = piece.rest := rfl

/-- A piece is reported at the place where it starts. -/
theorem Marked.past_reports (h : l.Marked passed) (hrest : l.rest = c :: cs) {item : Item}
    (htext : item.text = (Piece.first c cs).text) (hline : '\n' ∉ (Piece.first c cs).text)
    (hposition : item.position = Position.start.advance passed) :
    (l.past (Piece.first c cs)).Reports passed item := by
  have hmarked := h.past hrest hline
  rw [← htext] at hmarked hline
  exact ⟨hmarked, h.last_eq, hline, hposition⟩

/-- The place of a piece, as the marks give it behind the piece. -/
theorem Marked.place_past (h : l.Marked passed) (hrest : l.rest = c :: cs)
    (hline : '\n' ∉ (Piece.first c cs).text) :
    (l.past (Piece.first c cs)).place (l.past (Piece.first c cs)).first =
      Position.start.advance passed := by
  rw [← ((h.past hrest hline).place_eq hline).2, ← h.last_eq]
  rfl

theorem Marked.next_token (h : l.Marked passed) (hrest : l.rest = c :: cs) {kind : Token.Kind}
    (hkind : (Piece.first c cs).kind = .token kind) (hline : '\n' ∉ (Piece.first c cs).text) :
    l.next = (.ok ⟨kind, String.ofList (Piece.first c cs).text, Position.start.advance passed⟩,
      l.past (Piece.first c cs)) := by
  have hcut := cut_cons hrest
  rw [hkind] at hcut
  simp [next, h.not_exhausted hrest, hcut, h.place_past hrest hline,
    (h.past hrest hline).slice_eq h.last_eq]

theorem Marked.next_unknown (h : l.Marked passed) (hrest : l.rest = c :: cs)
    (hkind : (Piece.first c cs).kind = .unknown) (hline : '\n' ∉ (Piece.first c cs).text) :
    l.next = (.error ⟨c, Position.start.advance passed⟩, l.past (Piece.first c cs)) := by
  have hcut := cut_cons hrest
  rw [hkind] at hcut
  simp [next, h.not_exhausted hrest, hcut, h.place_past hrest hline,
    (h.past hrest hline).slice_eq h.last_eq, Piece.first_of_unknown hkind]

/-- Where no text is left the lexer finds the end of the source, or has found it before. -/
theorem Marked.exists_next_end (h : l.Marked passed) (hrest : l.rest = []) :
    ∃ behind : Lexer, l.next = (.ok behind.endOfInput, behind) ∧ behind.Marked passed ∧
      behind.rest = [] ∧ behind.first = behind.last ∧ behind.source = l.source := by
  cases hexhausted : l.exhausted with
  | true =>
      refine ⟨l, ?_, h, hrest, (h.finished hexhausted).2, rfl⟩
      rw [next, hexhausted]
      rfl
  | false =>
      refine ⟨{ l with first := l.last, exhausted := true }, ?_,
        ⟨h.source_eq, h.last_eq, h.line_eq, h.lineStart_eq, fun _ => ⟨hrest, rfl⟩⟩, hrest, rfl, rfl⟩
      rw [next, hexhausted, cut_nil hrest]
      rfl

/-- A piece that is not reported is passed over, and a newline moves the marks. -/
theorem Marked.exists_next_skip (h : l.Marked passed) (hrest : l.rest = c :: cs)
    (htoken : ∀ kind, (Piece.first c cs).kind ≠ .token kind)
    (hunknown : (Piece.first c cs).kind ≠ .unknown) :
    ∃ behind : Lexer, l.next = behind.next ∧
      behind.Marked (passed ++ (Piece.first c cs).text) ∧
      behind.rest = (Piece.first c cs).rest ∧ behind.source = l.source := by
  have hopen := h.not_exhausted hrest
  have hcut := cut_cons hrest
  have hfirst := Piece.first_cuts c cs
  cases hkind : (Piece.first c cs).kind with
  | token kind => exact absurd hkind (htoken kind)
  | unknown => exact absurd hkind hunknown
  | blanks | comment =>
      rw [hkind] at hcut hfirst
      have hline := hfirst.newline_not_mem Piece.Kind.noConfusion
      exact ⟨l.past (Piece.first c cs), next_congr hopen hopen hcut, h.past hrest hline, rfl, rfl⟩
  | newline =>
      rw [hkind] at hcut
      obtain rfl : c = '\n' := Piece.eq_newline hkind
      have htext : (Piece.first '\n' cs).text = ['\n'] := by rw [Piece.first_newline]
      exact ⟨(l.past (Piece.first '\n' cs)).newLine, next_congr hopen hopen hcut,
        htext ▸ h.newLine hrest, rfl, rfl⟩

end Reporting

/-- What is reported by the marks is what the scanner reports that carries the place along. -/
theorem Marked.exists_reports {l : Lexer} {passed : List Char} (h : l.Marked passed) :
    ∃ before, l.next.2.Reports before l.next.1 ∧ l.next.2.source = l.source ∧
      (Scanner.mk l.rest (Position.start.advance passed)).next =
        (l.next.1, ⟨l.next.2.rest, Position.start.advance (before ++ l.next.1.text)⟩) := by
  generalize hs : Scanner.mk l.rest (Position.start.advance passed) = s
  fun_induction Scanner.next s generalizing l passed with
  | case1 s hrest =>
      subst hs
      obtain ⟨behind, hnext, hmarked, hbehind, hfirst, hsource⟩ := h.exists_next_end hrest
      obtain ⟨hreports, hend⟩ := hmarked.reports_end hbehind hfirst
      rw [hnext]
      refine ⟨passed, hreports, hsource, ?_⟩
      simp [hend, hbehind, Item.text, Token.endOfInput, show l.rest = [] from hrest]
  | case2 s c cs hrest piece kind =>
      rename_i hkind
      subst hs
      have hline := (Piece.first_cuts c cs).newline_not_mem (hkind ▸ Piece.Kind.noConfusion)
      rw [h.next_token hrest hkind hline]
      refine ⟨passed, h.past_reports hrest String.toList_ofList hline rfl, rfl, ?_⟩
      simp [Scanner.after, Item.text, piece]
  | case3 s c cs hrest piece =>
      rename_i hkind
      subst hs
      have hline := (Piece.first_cuts c cs).newline_not_mem (hkind ▸ Piece.Kind.noConfusion)
      rw [h.next_unknown hrest hkind hline]
      have htext := Piece.first_of_unknown hkind
      refine ⟨passed, h.past_reports hrest htext.symm hline rfl, rfl, ?_⟩
      simp [Scanner.after, Item.text, htext, piece]
  | case4 s c cs hrest piece htoken =>
      rename_i hunknown ih
      subst hs
      obtain ⟨behind, hnext, hmarked, hbehind, hsource⟩ :=
        h.exists_next_skip hrest htoken hunknown
      rw [hnext, ← hsource]
      apply ih hmarked
      rw [hbehind, Position.advance_append]
      rfl

theorem ofString_marked (source : String) : (ofString source).Marked [] :=
  ⟨String.ofList_toList.symm, rfl, rfl, rfl, nofun⟩

/-- However many items were reported, the marks are right. -/
theorem Marked.afterCalls {l : Lexer} {passed : List Char} (h : l.Marked passed) (n : Nat) :
    ∃ passed', (l.afterCalls n).Marked passed' ∧ (l.afterCalls n).source = l.source ∧
      (Scanner.mk l.rest (Position.start.advance passed)).afterCalls n =
        ⟨(l.afterCalls n).rest, Position.start.advance passed'⟩ := by
  induction n generalizing l passed with
  | zero => exact ⟨passed, h, rfl, rfl⟩
  | succ n ih =>
      obtain ⟨before, hreports, hsource, hnext⟩ := h.exists_reports
      obtain ⟨passed', hmarked, hsource', hcalls⟩ := ih hreports.marked
      refine ⟨passed', hmarked, hsource'.trans hsource, ?_⟩
      rw [Scanner.afterCalls, hnext]
      exact hcalls

/-- What follows an item other than the end of input is reported at a later place. -/
theorem Reports.before_next {l : Lexer} {before : List Char} {item : Item}
    (h : l.Reports before item) (htext : item.text ≠ []) :
    item.position.Before l.next.1.position := by
  obtain ⟨_, _, _, hnext⟩ := h.marked.exists_reports
  obtain ⟨gap, hhands⟩ :=
    (Scanner.mk l.rest (Position.start.advance (before ++ item.text))).exists_hands
  rw [hnext] at hhands
  have hposition : l.next.1.position = item.position.advance (item.text ++ gap) := by
    calc
      l.next.1.position = (Position.start.advance (before ++ item.text)).advance gap :=
        hhands.position_eq
      _ = item.position.advance (item.text ++ gap) := by
        rw [h.position_eq, Position.advance_append, Position.advance_append]
  rw [hposition]
  exact item.position.before_advance (List.append_ne_nil_of_left_ne_nil htext gap)

/-- Every place that is reported is the true one. Whatever item a call returns, a token, an unknown
character or one of the ends of input, its text stands in the source behind some text, and the end
of input behind all of it. The line counts the newlines before the item, and the column the
characters behind the last of them. These are cut out of the source from the start of the line to
the item, which never fails. Until the end of input every place comes before the next one. -/
theorem next_at_true_place (source : String) (n : Nat) :
    let answer := ((ofString source).afterCalls n).next
    let item := answer.1
    let marks := answer.2
    item = (Scanner.ofString source).call n ∧
      ∃ before rest, source.toList = before ++ item.text ++ rest ∧
        (item.isEnd = true → before = source.toList) ∧
        marks.first = (String.ofList before).utf8ByteSize ∧
        item.position.line = 1 + before.count '\n' ∧
        item.position.column = 1 + (lastLine before).length ∧
        textBetween? source marks.lineStart marks.first = some (String.ofList (lastLine before)) ∧
        (item.isEnd = false → item.position.Before marks.next.1.position) := by
  intro answer item marks
  obtain ⟨passed, hmarked, hsource, hcalls⟩ := (ofString_marked source).afterCalls n
  obtain ⟨before, hreports, hsource', hnext⟩ := hmarked.exists_reports
  obtain ⟨gap, hhands⟩ := (Scanner.mk ((ofString source).afterCalls n).rest
    (Position.start.advance passed)).exists_hands
  rw [hnext] at hhands
  have hmarks : marks.source = source := hsource'.trans hsource
  have hall : source.toList = before ++ item.text ++ marks.rest := by
    rw [← hmarks, hreports.marked.source_eq, String.toList_ofList]
  obtain ⟨hcut, _⟩ := hreports.marked.place_eq hreports.newline_not_mem
  refine ⟨?_, before, marks.rest, hall, ?_, hreports.first_eq, ?_, ?_, ?_, ?_⟩
  · rw [Scanner.call]
    exact (congrArg (fun s => s.next.1) hcalls).trans (congrArg Prod.fst hnext) |>.symm
  · intro hend
    obtain ⟨htext, hrest⟩ := hhands.finished hend
    have hnothing : item.text ++ marks.rest = [] := List.append_eq_nil_iff.mpr ⟨htext, hrest⟩
    rw [hall, List.append_assoc, hnothing, List.append_nil]
  · rw [hreports.position_eq, Position.advance_start]
  · rw [hreports.position_eq, Position.advance_start]
  · rw [hreports.first_eq, ← hmarks]
    exact hcut
  · intro hopen
    exact hreports.before_next (hhands.text_ne_nil hopen)

end Lexer

end Calculator
