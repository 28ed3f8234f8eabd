import Calculator.Token.Position

/-!
The tokens of the expression language.
-/

namespace Calculator

/-- The lexical categories. `endOfInput` stands for the end of the source and matches no text. -/
inductive Token.Kind where
  | endOfInput
  | identifier
  | intLiteral
  | floatLiteral
  | hexLiteral
  | binLiteral
  | plus
  | minus
  | star
  | slash
  | caret
  | percent
  | ampersand
  | pipe
  | leftParen
  | rightParen
  | comma
deriving DecidableEq

def Token.Kind.name : Token.Kind → String
  | .endOfInput => "EndOfInput"
  | .identifier => "Identifier"
  | .intLiteral => "IntLiteral"
  | .floatLiteral => "FloatLiteral"
  | .hexLiteral => "HexLiteral"
  | .binLiteral => "BinLiteral"
  | .plus => "Plus"
  | .minus => "Minus"
  | .star => "Star"
  | .slash => "Slash"
  | .caret => "Caret"
  | .percent => "Percent"
  | .ampersand => "Amp"
  | .pipe => "Pipe"
  | .leftParen => "LParen"
  | .rightParen => "RParen"
  | .comma => "Comma"

def Token.Kind.all : List Token.Kind :=
  [.endOfInput, .identifier, .intLiteral, .floatLiteral, .hexLiteral, .binLiteral, .plus, .minus,
    .star, .slash, .caret, .percent, .ampersand, .pipe, .leftParen, .rightParen, .comma]

def Token.Kind.ofName? (name : String) : Option Token.Kind :=
  all.find? (·.name = name)

/-- A classified piece of source text and the place of its first character. -/
structure Token where
  kind : Token.Kind
  text : String
  position : Position
deriving DecidableEq

namespace Token

def line (t : Token) : Nat :=
  t.position.line

def endOfInput (position : Position) : Token :=
  ⟨.endOfInput, "", position⟩

end Token

structure UnknownCharacter where
  character : Char
  position : Position
deriving DecidableEq

end Calculator
