import Calculator.Expr.Basic
import Calculator.Proofs.Scanning.Spacing
import Calculator.Proofs.Writing.Literal

/-!
Trees as they can be written: each number by a lexeme and each constant by one of its names. Such a
tree is written with parentheses around every binary operation.
-/

namespace Calculator

inductive Written where
  | number (literal : Literal)
  | constant (name : String) (value : Constant) (known : Constant.ofName? name = some value)
  | negation (operand : Written)
  | binary (op : Operator) (lhs rhs : Written)
  | call (function : NamedFunction) (arguments : List Written)

def Operator.kind : Operator → Token.Kind
  | .add => .plus
  | .sub => .minus
  | .mul => .star
  | .div => .slash
  | .mod => .percent
  | .pow => .caret
  | .bitAnd => .ampersand
  | .bitOr => .pipe

namespace Lexeme

def minus : Lexeme := ⟨.token .minus, ['-']⟩
def opening : Lexeme := ⟨.token .leftParen, ['(']⟩
def closing : Lexeme := ⟨.token .rightParen, [')']⟩
def comma : Lexeme := ⟨.token .comma, [',']⟩

def operator (op : Operator) : Lexeme := ⟨.token op.kind, op.symbol.toList⟩

def name (name : String) : Lexeme := ⟨.token .identifier, name.toList⟩

def literal (l : Literal) : Lexeme := ⟨.token l.kind, l.text⟩

end Lexeme

namespace Written

mutual

/-- The tree without its lexemes, all of it on one line. -/
def toExpr (line : Nat) : Written → Expr
  | .number l => .literal l.value l.numericType line
  | .constant _ value _ => .constant value line
  | .negation operand => .negation (operand.toExpr line) line
  | .binary op lhs rhs => .binary op (lhs.toExpr line) (rhs.toExpr line) line
  | .call function arguments => .call function (toExprs line arguments) line

def toExprs (line : Nat) : List Written → List Expr
  | [] => []
  | w :: rest => w.toExpr line :: toExprs line rest

end

mutual

def height : Written → Nat
  | .number _ => 1
  | .constant _ _ _ => 1
  | .negation operand => operand.height + 1
  | .binary _ lhs rhs => max lhs.height rhs.height + 1
  | .call _ arguments => maxHeight arguments + 1

def maxHeight : List Written → Nat
  | [] => 0
  | w :: rest => max w.height (maxHeight rest)

end

mutual

def lexemes : Written → List Lexeme
  | .number l => [.literal l]
  | .constant name _ _ => [.name name]
  | .negation operand => .minus :: operand.lexemes
  | .binary op lhs rhs =>
      .opening :: (lhs.lexemes ++ .operator op :: (rhs.lexemes ++ [.closing]))
  | .call function arguments =>
      .name function.name :: .opening :: (argumentLexemes arguments ++ [.closing])

def argumentLexemes : List Written → List Lexeme
  | [] => []
  | w :: rest => w.lexemes ++ furtherLexemes rest

def furtherLexemes : List Written → List Lexeme
  | [] => []
  | w :: rest => .comma :: (w.lexemes ++ furtherLexemes rest)

end

end Written

private theorem isToken_symbol {kind : Token.Kind} {c : Char} (h : kind.symbol? = some c) :
    Lexeme.IsToken ⟨.token kind, [c]⟩ :=
  ⟨kind, rfl, .symbol h⟩

theorem Lexeme.isToken_operator (op : Operator) : (operator op).IsToken := by
  cases op <;> exact isToken_symbol rfl

theorem Lexeme.isToken_literal (l : Literal) : (literal l).IsToken :=
  ⟨l.kind, rfl, l.matches_text⟩

private theorem isToken_name {name : String} {c : Char} {cs : List Char}
    (h : name.toList = c :: cs) (hfirst : Unicode.isLetter c)
    (hothers : cs.all fun d => Unicode.isLetter d || Unicode.isNumeric d) :
    (Lexeme.name name).IsToken := by
  refine ⟨.identifier, rfl, ?_⟩
  rw [Lexeme.name, h]
  refine .identifier hfirst fun d hd => ?_
  simpa using List.all_eq_true.mp hothers d hd

private theorem isToken_function (f : NamedFunction) : (Lexeme.name f.name).IsToken := by
  cases f <;> exact isToken_name rfl (by decide) (by decide)

private theorem isToken_constant {name : String} {c : Constant}
    (h : Constant.ofName? name = some c) : (Lexeme.name name).IsToken := by
  unfold Constant.ofName? at h
  split at h
  · exact isToken_name rfl (by decide) (by decide)
  · exact isToken_name rfl (by decide) (by decide)
  · exact isToken_name rfl (by decide) (by decide)
  · cases h

namespace Written

mutual

/-- A tree is written by tokens only. -/
theorem isToken_lexemes (w : Written) : ∀ l ∈ w.lexemes, l.IsToken := by
  intro l hl
  match w with
  | .number literal =>
      rw [lexemes, List.mem_singleton] at hl
      subst hl
      exact Lexeme.isToken_literal literal
  | .constant name value known =>
      rw [lexemes, List.mem_singleton] at hl
      subst hl
      exact isToken_constant known
  | .negation operand =>
      rcases List.mem_cons.mp hl with rfl | hl
      · exact isToken_symbol rfl
      · exact operand.isToken_lexemes l hl
  | .binary op lhs rhs =>
      simp only [lexemes, List.mem_cons, List.mem_append, List.not_mem_nil, or_false] at hl
      rcases hl with rfl | hl | rfl | hl | rfl
      · exact isToken_symbol rfl
      · exact lhs.isToken_lexemes l hl
      · exact Lexeme.isToken_operator op
      · exact rhs.isToken_lexemes l hl
      · exact isToken_symbol rfl
  | .call function arguments =>
      simp only [lexemes, List.mem_cons, List.mem_append, List.not_mem_nil, or_false] at hl
      rcases hl with rfl | rfl | hl | rfl
      · exact isToken_function function
      · exact isToken_symbol rfl
      · exact isToken_argumentLexemes arguments l hl
      · exact isToken_symbol rfl

theorem isToken_argumentLexemes (ws : List Written) : ∀ l ∈ argumentLexemes ws, l.IsToken := by
  intro l hl
  match ws with
  | [] => cases hl
  | w :: rest =>
      rcases List.mem_append.mp hl with hl | hl
      · exact w.isToken_lexemes l hl
      · exact isToken_furtherLexemes rest l hl

theorem isToken_furtherLexemes (ws : List Written) : ∀ l ∈ furtherLexemes ws, l.IsToken := by
  intro l hl
  match ws with
  | [] => cases hl
  | w :: rest =>
      simp only [furtherLexemes, List.mem_cons, List.mem_append] at hl
      rcases hl with rfl | hl | hl
      · exact isToken_symbol rfl
      · exact w.isToken_lexemes l hl
      · exact isToken_furtherLexemes rest l hl

end

end Written

end Calculator
