import Calculator.Operator

/-!
The levels of binding strength. Each level joins operands of the next stronger level from left to
right; the strongest joins atoms.
-/

namespace Calculator

/-- How an operand can be followed by another one of the same level: not at all, through an
operator, or directly by an atom, which multiplies. -/
inductive Joint where
  | none
  | operator (op : Operator)
  | adjacency
deriving DecidableEq

inductive Level where
  | disjunction
  | conjunction
  | sum
  | product
  | power
deriving DecidableEq

namespace Level

/-- The joint that a token makes at a level. Names and opening parentheses behind an operand of a
product stand for a multiplication. -/
def joint : Level → Token.Kind → Joint
  | .disjunction, .pipe => .operator .bitOr
  | .conjunction, .ampersand => .operator .bitAnd
  | .sum, .plus => .operator .add
  | .sum, .minus => .operator .sub
  | .product, .star => .operator .mul
  | .product, .slash => .operator .div
  | .product, .percent => .operator .mod
  | .product, .identifier => .adjacency
  | .product, .leftParen => .adjacency
  | .power, .caret => .operator .pow
  | _, _ => .none

/-- Nothing is joined at the end of input. -/
theorem joint_endOfInput (level : Level) : level.joint .endOfInput = .none := by
  cases level <;> rfl

theorem ne_endOfInput_of_joint {level : Level} {kind : Token.Kind} {op : Operator}
    (h : level.joint kind = .operator op) : kind ≠ .endOfInput := by
  intro hend
  rw [hend, joint_endOfInput] at h
  cases h

/-- An operator joins only where its own token stands. -/
theorem ofKind?_of_joint {level : Level} {kind : Token.Kind} {op : Operator}
    (h : level.joint kind = .operator op) : Operator.ofKind? kind = some op := by
  cases level <;> cases kind <;> simp_all [joint, Operator.ofKind?]

end Level

end Calculator
