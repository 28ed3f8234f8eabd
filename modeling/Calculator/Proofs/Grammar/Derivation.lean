import Calculator.Expr.Basic
import Calculator.Numeral
import Calculator.Parser.Level

/-!
The grammar of expressions, stated without a parser. A derivation of a symbol leads from the tokens
before it to the tokens after it, so a rule may look at the token that follows. It determines the
tree that the tokens write and how many of its atoms lie within one another.
-/

namespace Calculator.Grammar

/-- The level of the operands that a level joins; there is none where they are atoms. -/
def stronger? : Level → Option Level
  | .disjunction => some .conjunction
  | .conjunction => some .sum
  | .sum => some .product
  | .product => some .power
  | .power => none

/-- What holds of atoms, and of the phrases of a level where it holds of its operands, holds of all
phrases. -/
theorem stronger?_induction {P : Option Level → Prop} (atom : P none)
    (chain : ∀ level, P (stronger? level) → P (some level)) : ∀ level, P level := by
  have hpower := chain .power atom
  have hproduct := chain .product hpower
  have hsum := chain .sum hproduct
  have hconjunction := chain .conjunction hsum
  have hdisjunction := chain .disjunction hconjunction
  rintro (_ | _ | _ | _ | _ | _) <;> assumption

inductive Joins : Level → Token.Kind → Operator → Prop where
  | bitOr : Joins .disjunction .pipe .bitOr
  | bitAnd : Joins .conjunction .ampersand .bitAnd
  | add : Joins .sum .plus .add
  | sub : Joins .sum .minus .sub
  | mul : Joins .product .star .mul
  | div : Joins .product .slash .div
  | mod : Joins .product .percent .mod
  | pow : Joins .power .caret .pow

/-- What can be derived: the phrases of a level or, without a level, the atoms; what stands behind
the first operand of a phrase; and the arguments of a call behind its opening parenthesis, all of
them or one or more. -/
inductive Symbol where
  | phrase (level : Option Level)
  | tail (level : Level)
  | argumentList
  | arguments

abbrev Symbol.atom : Symbol := .phrase none

abbrev Symbol.expression : Symbol := .phrase (some .disjunction)

/-- What a derivation of the symbol builds. A tail goes on from the tree to its left. -/
abbrev Symbol.Value : Symbol → Type
  | .phrase _ => Expr
  | .tail _ => Expr → Expr
  | .argumentList => List Expr
  | .arguments => List Expr

def Symbol.Holds (P : Expr → Prop) : (s : Symbol) → s.Value → Prop
  | .phrase _, e => P e
  | .tail _, extend => ∀ left, P left → P (extend left)
  | .argumentList, es => ∀ e ∈ es, P e
  | .arguments, es => ∀ e ∈ es, P e

/-- The derivations of a symbol from the tokens `before` it to the tokens `after` it. -/
inductive Derivation : Symbol → (before after : List Token) → Type where
  | phrase {level : Level} {before middle after : List Token}
      (first : Derivation (.phrase (stronger? level)) before middle)
      (others : Derivation (.tail level) middle after) :
      Derivation (.phrase (some level)) before after
  | done {level : Level} {rest : List Token} : Derivation (.tail level) rest rest
  | operator {level : Level} {rest middle after : List Token} (op : Operator) (sign : Token)
      (joins : Joins level sign.kind op)
      (operand : Derivation (.phrase (stronger? level)) rest middle)
      (others : Derivation (.tail level) middle after) :
      Derivation (.tail level) (sign :: rest) after
  | adjacency {rest middle after : List Token} (first : Token)
      (starts : first.kind = .identifier ∨ first.kind = .leftParen)
      (operand : Derivation .atom (first :: rest) middle)
      (others : Derivation (.tail .product) middle after) :
      Derivation (.tail .product) (first :: rest) after
  | negation {rest after : List Token} (sign : Token) (minus : sign.kind = .minus)
      (operand : Derivation .atom rest after) :
      Derivation .atom (sign :: rest) after
  | group {opening closing : Token} {rest after : List Token} (opens : opening.kind = .leftParen)
      (content : Derivation .expression rest (closing :: after))
      (closes : closing.kind = .rightParen) :
      Derivation .atom (opening :: rest) after
  | constant {rest : List Token} (name : Token) (constant : Constant)
      (identifier : name.kind = .identifier)
      (bare : ∀ t ∈ rest.head?, t.kind ≠ .leftParen)
      (known : Constant.ofName? name.text = some constant) :
      Derivation .atom (name :: rest) rest
  | call {opening : Token} {rest after : List Token} (name : Token) (function : NamedFunction)
      (identifier : name.kind = .identifier) (opens : opening.kind = .leftParen)
      (known : NamedFunction.ofName? name.text = some function)
      (list : Derivation .argumentList rest after) :
      Derivation .atom (name :: opening :: rest) after
  | number {rest : List Token} (literal : Token) (value : Binary64) (numericType : NumericType)
      (numeral : literal.kind ∈
        [Token.Kind.intLiteral, .floatLiteral, .hexLiteral, .binLiteral])
      (convertible :
        Numeral.read? literal.kind literal.text.toList = some (value, numericType)) :
      Derivation .atom (literal :: rest) rest
  | noArgument {closing : Token} {rest : List Token} (closes : closing.kind = .rightParen) :
      Derivation .argumentList (closing :: rest) rest
  | someArguments {before after : List Token} (list : Derivation .arguments before after) :
      Derivation .argumentList before after
  | lastArgument {closing : Token} {before after : List Token}
      (argument : Derivation .expression before (closing :: after))
      (closes : closing.kind = .rightParen) :
      Derivation .arguments before after
  | nextArgument {comma : Token} {before rest after : List Token}
      (argument : Derivation .expression before (comma :: rest)) (separates : comma.kind = .comma)
      (list : Derivation .arguments rest after) :
      Derivation .arguments before after

namespace Derivation

variable {s : Symbol} {before after : List Token}

/-- The tree that the tokens write. All levels join from left to right, and a node has the line of
its own token, which is the first token of the operand where no operator is written. -/
def value {s : Symbol} {before after : List Token} : Derivation s before after → s.Value
  | .phrase first others => others.value first.value
  | .done => id
  | .operator op sign _ operand others =>
      fun left => others.value (.binary op left operand.value sign.line)
  | .adjacency first _ operand others =>
      fun left => others.value (.binary .mul left operand.value first.line)
  | .negation sign _ operand => .negation operand.value sign.line
  | .group _ content _ => content.value
  | .constant name c _ _ _ => .constant c name.line
  | .call name f _ _ _ list => .call f list.value name.line
  | .number literal x numericType _ _ => .literal x numericType literal.line
  | .noArgument _ => []
  | .someArguments list => list.value
  | .lastArgument argument _ => [argument.value]
  | .nextArgument argument _ list => argument.value :: list.value

/-- The greatest number of atoms that lie within one another. -/
def nesting {s : Symbol} {before after : List Token} : Derivation s before after → Nat
  | .phrase first others => max first.nesting others.nesting
  | .done => 0
  | .operator _ _ _ operand others => max operand.nesting others.nesting
  | .adjacency _ _ operand others => max operand.nesting others.nesting
  | .negation _ _ operand => operand.nesting + 1
  | .group _ content _ => content.nesting + 1
  | .constant _ _ _ _ _ => 1
  | .call _ _ _ _ _ list => list.nesting + 1
  | .number _ _ _ _ _ => 1
  | .noArgument _ => 0
  | .someArguments list => list.nesting
  | .lastArgument argument _ => argument.nesting
  | .nextArgument argument _ list => max argument.nesting list.nesting

/-- A derivation uses up tokens from the front only. -/
theorem suffix (d : Derivation s before after) : after <:+ before := by
  induction d with
  | phrase _ _ ihf iho => exact iho.trans ihf
  | done => exact List.suffix_refl _
  | operator _ _ _ _ _ ihp iho => exact (iho.trans ihp).trans (List.suffix_cons _ _)
  | adjacency _ _ _ _ ihp iho => exact iho.trans ihp
  | negation _ _ _ ih => exact ih.trans (List.suffix_cons _ _)
  | group _ _ _ ih => exact ((List.suffix_cons _ _).trans ih).trans (List.suffix_cons _ _)
  | constant _ _ _ _ _ => exact List.suffix_cons _ _
  | call _ _ _ _ _ _ ih => exact (ih.trans (List.suffix_cons _ _)).trans (List.suffix_cons _ _)
  | number _ _ _ _ _ => exact List.suffix_cons _ _
  | noArgument _ => exact List.suffix_cons _ _
  | someArguments _ ih => exact ih
  | lastArgument _ _ ih => exact (List.suffix_cons _ _).trans ih
  | nextArgument _ _ _ iha ihl => exact (ihl.trans (List.suffix_cons _ _)).trans iha

/-- A property that every kind of node takes over from the nodes below it holds of all that is
derived. -/
theorem holds {P : Expr → Prop}
    (literal : ∀ kind text value numericType line,
      Numeral.read? kind text = some (value, numericType) → P (.literal value numericType line))
    (constant : ∀ c line, P (.constant c line))
    (negation : ∀ operand line, P operand → P (.negation operand line))
    (binary : ∀ op lhs rhs line, P lhs → P rhs → P (.binary op lhs rhs line))
    (call : ∀ f arguments line, (∀ e ∈ arguments, P e) → P (.call f arguments line))
    {s : Symbol} {before after : List Token} (d : Derivation s before after) :
    s.Holds P d.value := by
  induction d with
  | phrase _ _ ihf iho => exact iho _ ihf
  | done => exact fun _ h => h
  | operator op sign _ _ _ ihp iho => exact fun left h => iho _ (binary op _ _ sign.line h ihp)
  | adjacency first _ _ _ ihp iho => exact fun left h => iho _ (binary .mul _ _ first.line h ihp)
  | negation sign _ _ ih => exact negation _ sign.line ih
  | group _ _ _ ih => exact ih
  | constant name c _ _ _ => exact constant c name.line
  | call name f _ _ _ _ ih => exact call f _ name.line ih
  | number t value numericType _ convertible =>
      exact literal _ _ value numericType t.line convertible
  | noArgument _ => exact fun e h => absurd h List.not_mem_nil
  | someArguments _ ih => exact ih
  | lastArgument _ _ ih =>
      intro e h
      rw [List.mem_singleton.mp h]
      exact ih
  | nextArgument _ _ _ iha ihl =>
      intro e h
      rcases List.mem_cons.mp h with rfl | h
      · exact iha
      · exact ihl e h

end Derivation

end Calculator.Grammar
