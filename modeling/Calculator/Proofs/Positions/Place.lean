import Mathlib.Data.List.DropRight
import Calculator.Proofs.Scanning.Spacing

/-!
Places in a source text. The place behind a text is given by the number of its newlines and by the
length of its last line, and places move forward along a text. A scanner stands at the place behind
all that it has passed, and reports of every item the place where the text of the item starts.
-/

namespace Calculator

/-- What stands behind the last newline of a text. -/
def lastLine (text : List Char) : List Char :=
  text.rtakeWhile (· != '\n')

def fullLines (text : List Char) : List Char :=
  text.rdropWhile (· != '\n')

@[simp] theorem fullLines_append_lastLine (text : List Char) :
    fullLines text ++ lastLine text = text :=
  List.rdropWhile_append_rtakeWhile ..

theorem lastLine_concat_newline (text : List Char) : lastLine (text ++ ['\n']) = [] :=
  List.rtakeWhile_concat_neg _ _ _ (by decide)

theorem fullLines_concat_newline (text : List Char) :
    fullLines (text ++ ['\n']) = text ++ ['\n'] :=
  List.rdropWhile_concat_neg _ _ _ (by decide)

theorem lastLine_concat (text : List Char) {c : Char} (h : c ≠ '\n') :
    lastLine (text ++ [c]) = lastLine text ++ [c] :=
  List.rtakeWhile_concat_pos _ _ _ (by simpa using h)

theorem fullLines_append_of_not_mem (text : List Char) {more : List Char} (h : '\n' ∉ more) :
    fullLines (text ++ more) = fullLines text := by
  induction more using List.reverseRecOn with
  | nil => rw [List.append_nil]
  | append_singleton more c ih =>
      have hmore : '\n' ∉ more := fun hmem => h (List.mem_append_left _ hmem)
      have hc : c ≠ '\n' := by
        rintro rfl
        exact h (List.mem_append_right _ List.mem_cons_self)
      rw [← List.append_assoc, ← ih hmore]
      exact List.rdropWhile_concat_pos _ _ _ (by simpa using hc)

namespace Position

/-- One place comes before another one, on an earlier line or further to the left. -/
def Before (p q : Position) : Prop :=
  p.line < q.line ∨ p.line = q.line ∧ p.column < q.column

theorem Before.trans {p q r : Position} (h : p.Before q) (h' : q.Before r) : p.Before r := by
  unfold Before at *
  omega

theorem Before.ne {p q : Position} (h : p.Before q) : p ≠ q := by
  rintro rfl
  unfold Before at h
  omega

theorem before_step (p : Position) (c : Char) : p.Before (p.step c) := by
  unfold step
  split
  · exact .inl (Nat.lt_succ_self p.line)
  · exact .inr ⟨rfl, Nat.lt_succ_self p.column⟩

/-- Every character moves the place forward. -/
theorem before_advance (p : Position) {text : List Char} (h : text ≠ []) :
    p.Before (p.advance text) := by
  induction text generalizing p with
  | nil => exact absurd rfl h
  | cons c rest ih =>
      change p.Before ((p.step c).advance rest)
      cases rest with
      | nil => exact p.before_step c
      | cons d rest => exact (p.before_step c).trans (ih _ (List.cons_ne_nil d rest))

/-- The place behind a text is on the line behind its newlines, and in the column behind its last
line. -/
theorem advance_start (text : List Char) :
    start.advance text = ⟨1 + text.count '\n', 1 + (lastLine text).length⟩ := by
  induction text using List.reverseRecOn with
  | nil => rfl
  | append_singleton text c ih =>
      rw [advance_append, ih]
      change step _ c = _
      by_cases hc : c = '\n'
      · subst hc
        simp [step, lastLine_concat_newline]
        omega
      · simp [step, hc, lastLine_concat text hc]
        omega

end Position

namespace Item

def position : Item → Position
  | .ok t => t.position
  | .error found => found.position

def text : Item → List Char
  | .ok t => t.text.toList
  | .error found => [found.character]

end Item

/-- The text of an item that a scanner reports stays on one line. -/
theorem Cuts.newline_not_mem {kind : Piece.Kind} {text rest : List Char} (h : Cuts kind text rest)
    (hkind : kind ≠ .newline) : '\n' ∉ text := by
  intro hmem
  cases h with
  | pattern ne_comment longest =>
      have hmatch := longest.isMatch
      cases kind with
      | token kind => exact absurd (hmatch.lt_toNat _ hmem) (by decide)
      | blanks =>
          cases hmatch with
          | blanks _ all => exact absurd (all _ hmem) (by simp [Blank])
      | newline => exact hkind rfl
      | comment => exact ne_comment rfl
      | unknown => exact hmatch.kind_ne_unknown rfl
  | comment _ within _ =>
      simp only [List.mem_cons] at hmem
      rcases hmem with h | h | h
      · exact absurd h (by decide)
      · exact absurd h (by decide)
      · exact within h
  | @unknown c rest no_match =>
      rw [List.mem_singleton] at hmem
      subst hmem
      exact no_match .newline ['\n'] .newline (List.prefix_append ['\n'] rest)

/-- An unknown character is a piece of its own. -/
theorem Piece.first_of_unknown {c : Char} {cs : List Char} (h : (first c cs).kind = .unknown) :
    (first c cs).text = [c] := by
  have hcut := first_cuts c cs
  have hsplit := first_text_append_rest c cs
  rw [h] at hcut
  generalize (first c cs).text = text at hcut hsplit ⊢
  cases hcut with
  | pattern _ longest => exact absurd rfl longest.isMatch.kind_ne_unknown
  | unknown _ => rw [(List.cons.inj hsplit).1]

theorem Piece.eq_newline {c : Char} {cs : List Char} (h : (first c cs).kind = .newline) :
    c = '\n' := by
  have hcut := first_cuts c cs
  have hsplit := first_text_append_rest c cs
  rw [h] at hcut
  generalize (first c cs).text = text at hcut hsplit
  cases hcut with
  | pattern _ longest =>
      cases longest.isMatch
      exact (List.cons.inj hsplit).1.symm

namespace Scanner

/-- The next item stands behind a gap, at the place there, and the scanner goes on behind it. Its
text is on one line. Only the end of input has no text, and there is nothing behind it. -/
structure Hands (s : Scanner) (gap : List Char) (item : Item) (behind : Scanner) : Prop where
  rest_eq : s.rest = gap ++ item.text ++ behind.rest
  position_eq : item.position = s.position.advance gap
  behind_eq : behind.position = item.position.advance item.text
  newline_not_mem : '\n' ∉ item.text
  text_ne_nil : item.isEnd = false → item.text ≠ []
  finished : item.isEnd = true → item.text = [] ∧ behind.rest = []

/-- A piece that is not reported belongs to the gap. -/
theorem Hands.skip {s behind : Scanner} {gap : List Char} {item : Item} {c : Char}
    {cs : List Char} (hrest : s.rest = c :: cs)
    (h : Hands (s.after (Piece.first c cs)) gap item behind) :
    Hands s ((Piece.first c cs).text ++ gap) item behind := by
  refine ⟨?_, ?_, h.behind_eq, h.newline_not_mem, h.text_ne_nil, h.finished⟩
  · have hafter : (Piece.first c cs).rest = gap ++ item.text ++ behind.rest := h.rest_eq
    rw [hrest, ← Piece.first_text_append_rest c cs, hafter]
    simp only [List.append_assoc]
  · rw [h.position_eq, Position.advance_append]
    rfl

/-- Every item is handed out behind some gap. -/
theorem exists_hands (s : Scanner) : ∃ gap, s.Hands gap s.next.1 s.next.2 := by
  fun_induction next s with
  | case1 s hrest =>
      refine ⟨[], ?_, rfl, rfl, List.not_mem_nil, Bool.noConfusion, fun _ => ⟨rfl, hrest⟩⟩
      simp [Item.text, Token.endOfInput, hrest]
  | case2 s c cs hrest piece kind hkind =>
      have hcut := Piece.first_cuts c cs
      have hline := hcut.newline_not_mem (hkind ▸ Piece.Kind.noConfusion)
      have hend : kind ≠ .endOfInput := by
        rintro rfl
        exact Piece.first_kind_ne_endOfInput c cs hkind
      refine ⟨[], ?_, rfl, ?_, ?_, fun _ => ?_, fun h => ?_⟩
      · rw [hrest, ← Piece.first_text_append_rest c cs]
        simp [Item.text, after, piece]
      · simp [Item.text, Item.position, after, piece]
      · simpa [Item.text] using hline
      · simpa [Item.text] using Piece.first_text_ne_nil c cs
      · exact absurd h (by simpa [Item.isEnd] using hend)
  | case3 s c cs hrest piece hkind =>
      have htext : piece.text = [c] := Piece.first_of_unknown hkind
      have hline := (Piece.first_cuts c cs).newline_not_mem (hkind ▸ Piece.Kind.noConfusion)
      refine ⟨[], ?_, rfl, ?_, ?_, fun _ => List.cons_ne_nil _ _, Bool.noConfusion⟩
      · rw [hrest, ← Piece.first_text_append_rest c cs]
        exact congrArg (· ++ piece.rest) htext
      · exact congrArg s.position.advance htext
      · change '\n' ∉ [c]
        rw [← htext]
        exact hline
  | case4 s c cs hrest piece _ _ ih =>
      obtain ⟨gap, hgap⟩ := ih
      exact ⟨_, hgap.skip hrest⟩

end Scanner

end Calculator
