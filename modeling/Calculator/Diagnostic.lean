import Calculator.Operator
import Calculator.NamedFunction

/-!
What can be wrong with a source text, and the one line that reports it. Evaluation itself never
fails.
-/

namespace Calculator

inductive SyntaxError where
  | unknownCharacter (found : UnknownCharacter)
  | invalidNumber (literal : String) (line : Nat)
  | unknownIdentifier (name : String) (line : Nat)
  | unexpectedToken (token : String) (line : Nat)
  | unexpectedEndOfInput (line : Nat)
  | expectedClosingParen (line : Nat)
  | nestingTooDeep (line : Nat)
  | unexpectedTrailingTokens (token : String) (line : Nat)
deriving DecidableEq

inductive AnalysisError where
  | illegalOperands (operator : Operator) (line : Nat)
  | arityMismatch (function : NamedFunction) (found : Nat) (line : Nat)
deriving DecidableEq

/-- Why a text cannot be calculated. -/
inductive Diagnostic where
  | malformed (error : SyntaxError)
  | illTyped (error : AnalysisError)
deriving DecidableEq

def SyntaxError.line : SyntaxError → Nat
  | .unknownCharacter found => found.position.line
  | .invalidNumber _ line => line
  | .unknownIdentifier _ line => line
  | .unexpectedToken _ line => line
  | .unexpectedEndOfInput line => line
  | .expectedClosingParen line => line
  | .nestingTooDeep line => line
  | .unexpectedTrailingTokens _ line => line

def SyntaxError.description : SyntaxError → String
  | .unknownCharacter found =>
      "Unknown character '" ++ String.singleton found.character ++ "' at column "
        ++ Nat.repr found.position.column ++ "."
  | .invalidNumber literal _ => "Invalid number literal '" ++ literal ++ "'."
  | .unknownIdentifier name _ => "Unknown identifier '" ++ name ++ "'."
  | .unexpectedToken token _ => "Unexpected token: " ++ token ++ "."
  | .unexpectedEndOfInput _ => "Unexpected end of input."
  | .expectedClosingParen _ => "Expected closing parenthesis ')' but none found."
  | .nestingTooDeep _ => "Expression is nested too deeply."
  | .unexpectedTrailingTokens token _ =>
      "Extra tokens after expression. Check your input: " ++ token

def AnalysisError.line : AnalysisError → Nat
  | .illegalOperands _ line => line
  | .arityMismatch _ _ line => line

def AnalysisError.description : AnalysisError → String
  | .illegalOperands operator _ => "Illegal operands for " ++ operator.symbol ++ "."
  | .arityMismatch function found _ =>
      "Expected " ++ Nat.repr function.arity ++ " arguments in " ++ function.name ++ ", got "
        ++ Nat.repr found ++ "."

def onLine (line : Nat) (description : String) : String :=
  "Error on line " ++ Nat.repr line ++ ": " ++ description

def SyntaxError.message (e : SyntaxError) : String :=
  onLine e.line e.description

def AnalysisError.message (e : AnalysisError) : String :=
  onLine e.line e.description

namespace Diagnostic

def line : Diagnostic → Nat
  | .malformed e => e.line
  | .illTyped e => e.line

def message : Diagnostic → String
  | .malformed e => e.message
  | .illTyped e => e.message

end Diagnostic

end Calculator
