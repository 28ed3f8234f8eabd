import Calculator.Expr.Outline
import Calculator.Proofs.Writing.Digits

/-!
The labels of nodes. A label tells the kind of its node, except that a minus sign stands both for a
negation and for a difference, and within a kind it tells what node it is. No label holds a blank or
a newline.
-/

namespace Calculator

namespace Binary64

def quieted : Binary64 → Binary64
  | .nan _ => quietNan
  | x => x

theorem text_quieted (x : Binary64) : x.quieted.text = x.text := by
  cases x <;> rfl

def readMagnitude (text : List Char) : Option Binary64 :=
  if text = ['N', 'a', 'N'] then some quietNan
  else if text = ['i', 'n', 'f'] then some (.infinity false)
  else if text.head?.any Char.isDigit then (Numeral.fractional? text).map Prod.fst
  else none

def readText (text : List Char) : Option Binary64 :=
  if text.head? = some '-' then (readMagnitude text.tail).map neg else readMagnitude text

theorem readMagnitude_shortest (rank : Fin rankCount) :
    readMagnitude (Decimal.shortest rank).positional = some (.finite false rank) := by
  obtain ⟨c, rest, htext, hdigit⟩ := (Decimal.shortest rank).exists_positional_eq_cons
  have hword (d : Char) (word : List Char) (hd : d.isDigit = false) :
      (Decimal.shortest rank).positional ≠ d :: word := by
    rw [htext]
    rintro ⟨⟩
    rw [hdigit] at hd
    cases hd
  have hhead : (Decimal.shortest rank).positional.head?.any Char.isDigit := by
    rw [htext]
    exact hdigit
  rw [readMagnitude, if_neg (hword 'N' _ rfl), if_neg (hword 'i' _ rfl), if_pos hhead,
    Numeral.fractional?_shortest]
  rfl

/-- Reading undoes writing. -/
theorem readText_text (x : Binary64) : readText x.text.toList = some x.quieted := by
  cases x with
  | nan =>
      rw [text]
      rfl
  | infinity negative => cases negative <;> rfl
  | finite negative rank =>
      rw [text, String.toList_append, String.toList_ofList]
      cases negative
      · obtain ⟨c, rest, htext, hdigit⟩ := (Decimal.shortest rank).exists_positional_eq_cons
        have hsign : (Decimal.shortest rank).positional.head? ≠ some '-' := by
          rw [htext]
          rintro ⟨⟩
          cases hdigit
        exact (if_neg hsign).trans (readMagnitude_shortest rank)
      · exact congrArg (Option.map neg) (readMagnitude_shortest rank)

/-- The text of a number holds no blank or control character. -/
theorem all_text (x : Binary64) : x.text.toList.all (32 < ·.toNat) := by
  cases x with
  | nan =>
      rw [text]
      rfl
  | infinity negative => cases negative <;> rfl
  | finite negative rank =>
      rw [text, String.toList_append, String.toList_ofList, List.all_append, Bool.and_eq_true]
      constructor
      · cases negative <;> rfl
      · refine List.all_eq_true.mpr fun c hc => decide_eq_true ?_
        rcases Decimal.isDigit_or_eq_of_mem_positional hc with h | rfl
        · exact Nat.lt_of_lt_of_le (by decide) (toNat_of_isDigit h).1
        · decide

end Binary64

/-- What a label says about its node. -/
inductive Label where
  | number (value : Binary64)
  | constant (c : Constant)
  | sign (op : Operator)
  | function (f : NamedFunction)
deriving DecidableEq

namespace Label

def text : Label → String
  | .number value => value.text
  | .constant c => c.name
  | .sign op => op.symbol
  | .function f => f.name

def read (text : String) : Option Label :=
  match Binary64.readText text.toList with
  | some value => some (.number value)
  | none =>
      match Constant.ofName? text with
      | some c => some (.constant c)
      | none =>
          match Operator.ofSymbol? text with
          | some op => some (.sign op)
          | none => (NamedFunction.ofName? text).map .function

theorem read_number (value : Binary64) : read value.text = some (.number value.quieted) := by
  rw [read, value.readText_text]

theorem read_constant (c : Constant) : read c.name = some (.constant c) := by
  cases c <;> decide

theorem read_sign (op : Operator) : read op.symbol = some (.sign op) := by
  cases op <;> decide

theorem read_function (f : NamedFunction) : read f.name = some (.function f) := by
  cases f <;> decide

/-- No label holds a blank or a newline. -/
theorem all_text (l : Label) : l.text.toList.all (32 < ·.toNat) := by
  cases l with
  | number value => exact value.all_text
  | constant c => cases c <;> rfl
  | sign op => cases op <;> rfl
  | function f => cases f <;> rfl

end Label

namespace Expr

/-- What the label of the topmost node says. A negation looks like a difference. -/
def shown : Expr → Label
  | .literal value _ _ => .number value.quieted
  | .constant c _ => .constant c
  | .negation _ _ => .sign .sub
  | .binary op _ _ _ => .sign op
  | .call f _ _ => .function f

theorem text_shown (e : Expr) : e.shown.text = e.label := by
  cases e with
  | literal value => exact value.text_quieted
  | _ => rfl

/-- A label can be read, so it says what it says unmistakably. -/
theorem read_label (e : Expr) : Label.read e.label = some e.shown := by
  cases e with
  | literal value => exact Label.read_number value
  | constant c => exact Label.read_constant c
  | negation => exact Label.read_sign .sub
  | binary op => exact Label.read_sign op
  | call f => exact Label.read_function f

theorem label_eq_label_iff {e f : Expr} : e.label = f.label ↔ e.shown = f.shown := by
  constructor
  · intro h
    have hread := e.read_label
    rw [h, f.read_label] at hread
    exact (Option.some.inj hread).symm
  · intro h
    rw [← e.text_shown, h, f.text_shown]

end Expr

end Calculator
