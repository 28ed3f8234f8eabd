import Calculator.Expr.Basic
import Calculator.Numeral
import Calculator.Parser.Basic
import Calculator.Parser.Level
import Calculator.Token.Scanner

/-!
Reading an expression from a supply of tokens by recursive descent. An atom is a number, a
constant, a negated atom, a group or a call; atoms are joined level by level. What an atom holds is
read with room for one open atom less, so the descent ends with the room that it is given, and the
loops end with the supply.
-/

namespace Calculator

variable {σ : Type} [TokenSource σ]

namespace Parser

/-- Goes on behind an operand of a level: as long as the token in view makes a joint, reads a
further operand and joins it to all that stands to its left. -/
def chainFrom (level : Level) (atom operand : Parser σ Expr) {bound : Nat} (left : Expr)
    (c : Cursor σ) (hc : c.size < bound) : Except SyntaxError (Parsed σ Expr bound) :=
  match level.joint c.token.kind with
  | .none => .ok ⟨left, c, hc⟩
  | .operator op => do
      let sign ← token c
      let right ← operand sign.rest
      have hright : right.rest.size < c.size := Nat.lt_trans right.size_lt sign.size_lt
      chainFrom level atom operand (.binary op left right.value c.token.line) right.rest
        (Nat.lt_trans hright hc)
  | .adjacency => do
      let right ← atom c
      have hright : right.rest.size < c.size := right.size_lt
      chainFrom level atom operand (.binary .mul left right.value c.token.line) right.rest
        (Nat.lt_trans hright hc)
termination_by c.size

def chain (level : Level) (atom operand : Parser σ Expr) : Parser σ Expr := fun c => do
  let first ← operand c
  chainFrom level atom operand first.value first.rest first.size_lt

def expression (atom : Parser σ Expr) : Parser σ Expr :=
  chain .disjunction atom <| chain .conjunction atom <| chain .sum atom <|
    chain .product atom <| chain .power atom atom

def number : Parser σ Expr := fun c =>
  if c.token.kind ∈ Token.Kind.numerals then
    match Numeral.read? c.token.kind c.token.text.toList with
    | none => .error (.invalidNumber c.token.text c.token.line)
    | some (value, numericType) => do
        let behind ← token c
        return ⟨.literal value numericType c.token.line, behind.rest, behind.size_lt⟩
  else .error (.unexpectedToken c.token.text c.token.line)

def negation (atom : Parser σ Expr) : Parser σ Expr := fun c => do
  let sign ← token c
  let operand ← atom sign.rest
  return ⟨.negation operand.value c.token.line, operand.rest,
    Nat.lt_trans operand.size_lt sign.size_lt⟩

def group (inner : Parser σ Expr) : Parser σ Expr := fun c => do
  let opening ← token c
  let content ← inner opening.rest
  if content.rest.token.kind = .rightParen then
    let closing ← token content.rest
    return ⟨content.value, closing.rest,
      Nat.lt_trans closing.size_lt (Nat.lt_trans content.size_lt opening.size_lt)⟩
  else
    throw (.expectedClosingParen content.rest.token.line)

def arguments (inner : Parser σ Expr) : Parser σ (List Expr) := fun c => do
  let argument ← inner c
  match argument.rest.token.kind with
  | .rightParen =>
      let closing ← token argument.rest
      return ⟨[argument.value], closing.rest, Nat.lt_trans closing.size_lt argument.size_lt⟩
  | .comma =>
      let comma ← token argument.rest
      have hcomma : comma.rest.size < c.size := Nat.lt_trans comma.size_lt argument.size_lt
      let others ← arguments inner comma.rest
      return ⟨argument.value :: others.value, others.rest, Nat.lt_trans others.size_lt hcomma⟩
  | .endOfInput => throw (.expectedClosingParen argument.rest.token.line)
  | _ => throw (.unexpectedToken argument.rest.token.text argument.rest.token.line)
termination_by c => c.size

/-- The argument list whose opening parenthesis is in view; it may be empty. -/
def argumentList (inner : Parser σ Expr) : Parser σ (List Expr) := fun c => do
  let opening ← token c
  if opening.rest.token.kind = .rightParen then
    let closing ← token opening.rest
    return ⟨[], closing.rest, Nat.lt_trans closing.size_lt opening.size_lt⟩
  else
    let list ← arguments inner opening.rest
    return ⟨list.value, list.rest, Nat.lt_trans list.size_lt opening.size_lt⟩

/-- The call or the constant whose name is in view. A name is called exactly when an opening
parenthesis follows it. -/
def named (inner : Parser σ Expr) : Parser σ Expr := fun c => do
  let name ← token c
  if name.rest.token.kind = .leftParen then
    match NamedFunction.ofName? c.token.text with
    | none => throw (.unknownIdentifier c.token.text c.token.line)
    | some function =>
        let list ← argumentList inner name.rest
        return ⟨.call function list.value c.token.line, list.rest,
          Nat.lt_trans list.size_lt name.size_lt⟩
  else
    match Constant.ofName? c.token.text with
    | none => throw (.unknownIdentifier c.token.text c.token.line)
    | some constant => return ⟨.constant constant c.token.line, name.rest, name.size_lt⟩

def atomOver (atom : Parser σ Expr) : Parser σ Expr := fun c =>
  match c.token.kind with
  | .minus => negation atom c
  | .leftParen => group (expression atom) c
  | .identifier => named (expression atom) c
  | .intLiteral | .floatLiteral | .hexLiteral | .binLiteral => number c
  | .endOfInput => .error (.unexpectedEndOfInput c.token.line)
  | _ => .error (.unexpectedToken c.token.text c.token.line)

/-- An atom, where at most `room` atoms may be open at once, itself included. -/
def atom : (room : Nat) → Parser σ Expr
  | 0 => fun c => .error (.nestingTooDeep c.token.line)
  | room + 1 => atomOver (atom room)

def whole (room : Nat) (source : σ) : Except SyntaxError Expr := do
  let c ← Cursor.ofSource source
  let result ← expression (atom room) c.val
  let t := result.rest.token
  if t.kind = .endOfInput then return result.value
  else throw (.unexpectedTrailingTokens t.text t.line)

end Parser

namespace Expr

/-- How many atoms may be open at once. -/
def nestingLimit : Nat := 128

def ofTokens (source : σ) : Except SyntaxError Expr :=
  Parser.whole nestingLimit source

def parse (source : String) : Except SyntaxError Expr :=
  ofTokens (Scanner.ofString source)

end Expr

end Calculator
