/-!
Places in a source text, as line and column counted from one. A position is carried along the text
character by character, so the position behind a text depends on nothing but the text before it.
-/

namespace Calculator

/-- A line, and a column that counts characters. -/
structure Position where
  line : Nat
  column : Nat
deriving DecidableEq

namespace Position

def start : Position :=
  ⟨1, 1⟩

def step (p : Position) (c : Char) : Position :=
  if c = '\n' then ⟨p.line + 1, 1⟩ else ⟨p.line, p.column + 1⟩

def advance (p : Position) (text : List Char) : Position :=
  text.foldl step p

@[simp] theorem advance_nil (p : Position) : p.advance [] = p := rfl

@[simp] theorem advance_append (p : Position) (first second : List Char) :
    p.advance (first ++ second) = (p.advance first).advance second :=
  List.foldl_append ..

/-- Each newline adds one line. -/
theorem line_advance (p : Position) (text : List Char) :
    (p.advance text).line = p.line + text.count '\n' := by
  induction text generalizing p with
  | nil => rfl
  | cons c rest ih =>
      change ((p.step c).advance rest).line = _
      rw [ih]
      by_cases hc : c = '\n'
      · subst hc
        simp [step]
        omega
      · simp [step, hc]

end Position

end Calculator
