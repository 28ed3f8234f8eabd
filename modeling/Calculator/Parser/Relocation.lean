import Calculator.Diagnostic
import Calculator.Expr.Basic
import Calculator.Token.Source

/-!
Moving what a source text holds to other places: its tokens, the nodes of its expression and its
errors. Everything but the places stays as it is, and the line of what is moved depends on nothing
but the line where it was.
-/

namespace Calculator

/-- A new line for each line, and a new column for each place. -/
structure Relocation where
  line : Nat → Nat
  column : Position → Nat

namespace Relocation

def stay : Relocation :=
  ⟨id, Position.column⟩

def toMargin : Relocation :=
  ⟨id, fun _ => 1⟩

/-- All places become one, so that they no longer tell anything apart. -/
def forget : Relocation :=
  ⟨fun _ => 1, fun _ => 1⟩

def place (r : Relocation) (p : Position) : Position :=
  ⟨r.line p.line, r.column p⟩

end Relocation

def Token.relocate (r : Relocation) (t : Token) : Token :=
  { t with position := r.place t.position }

def UnknownCharacter.relocate (r : Relocation) (found : UnknownCharacter) : UnknownCharacter :=
  { found with position := r.place found.position }

def Item.relocate (r : Relocation) : Item → Item
  | .ok t => .ok (t.relocate r)
  | .error found => .error (found.relocate r)

def ItemList.relocate (r : Relocation) (l : ItemList) : ItemList :=
  ⟨l.items.map (Item.relocate r), r.place l.finish⟩

def SyntaxError.relocate (r : Relocation) : SyntaxError → SyntaxError
  | .unknownCharacter found => .unknownCharacter (found.relocate r)
  | .invalidNumber literal line => .invalidNumber literal (r.line line)
  | .unknownIdentifier name line => .unknownIdentifier name (r.line line)
  | .unexpectedToken token line => .unexpectedToken token (r.line line)
  | .unexpectedEndOfInput line => .unexpectedEndOfInput (r.line line)
  | .expectedClosingParen line => .expectedClosingParen (r.line line)
  | .nestingTooDeep line => .nestingTooDeep (r.line line)
  | .unexpectedTrailingTokens token line => .unexpectedTrailingTokens token (r.line line)

def AnalysisError.relocate (r : Relocation) : AnalysisError → AnalysisError
  | .illegalOperands op line => .illegalOperands op (r.line line)
  | .arityMismatch f found line => .arityMismatch f found (r.line line)

def Diagnostic.relocate (r : Relocation) : Diagnostic → Diagnostic
  | .malformed e => .malformed (e.relocate r)
  | .illTyped e => .illTyped (e.relocate r)

namespace Expr

mutual

def relocate (r : Relocation) : Expr → Expr
  | .literal value numericType line => .literal value numericType (r.line line)
  | .constant c line => .constant c (r.line line)
  | .negation operand line => .negation (operand.relocate r) (r.line line)
  | .binary op lhs rhs line => .binary op (lhs.relocate r) (rhs.relocate r) (r.line line)
  | .call f arguments line => .call f (relocateAll r arguments) (r.line line)

def relocateAll (r : Relocation) : List Expr → List Expr
  | [] => []
  | e :: rest => e.relocate r :: relocateAll r rest

end

end Expr

def Relocation.result (r : Relocation) : Except SyntaxError Expr → Except SyntaxError Expr
  | .ok e => .ok (e.relocate r)
  | .error e => .error (e.relocate r)

@[simp] theorem Item.relocate_stay (item : Item) : item.relocate .stay = item := by
  cases item <;> rfl

@[simp] theorem SyntaxError.relocate_stay (e : SyntaxError) : e.relocate .stay = e := by
  cases e <;> rfl

mutual

/-- An expression has lines only. -/
theorem Expr.relocate_of_line {r : Relocation} (h : ∀ line, r.line line = line) :
    ∀ e : Expr, e.relocate r = e
  | .literal .. | .constant .. => by rw [Expr.relocate, h]
  | .negation operand line => by rw [Expr.relocate, operand.relocate_of_line h, h]
  | .binary op lhs rhs line => by
      rw [Expr.relocate, lhs.relocate_of_line h, rhs.relocate_of_line h, h]
  | .call f arguments line => by rw [Expr.relocate, Expr.relocateAll_of_line h arguments, h]

theorem Expr.relocateAll_of_line {r : Relocation} (h : ∀ line, r.line line = line) :
    ∀ es : List Expr, Expr.relocateAll r es = es
  | [] => rfl
  | e :: rest => by
      rw [Expr.relocateAll, e.relocate_of_line h, Expr.relocateAll_of_line h rest]

end

@[simp] theorem Relocation.result_stay (x : Except SyntaxError Expr) : stay.result x = x := by
  cases x with
  | ok e => exact congrArg Except.ok (e.relocate_of_line fun _ => rfl)
  | error e => exact congrArg Except.error e.relocate_stay

@[simp] theorem ItemList.next_relocate (r : Relocation) (l : ItemList) :
    (l.relocate r).next = (l.next.1.relocate r, l.next.2.relocate r) := by
  obtain ⟨items, finish⟩ := l
  cases items <;> rfl

end Calculator
