import Calculator.Binary64.Arithmetic
import Calculator.Binary64.Elementary
import Calculator.Binary64.Integer
import Calculator.Constant

/-!
The functions that an expression can call.
-/

namespace Calculator

inductive NamedFunction where
  | sqrt
  | log
  | log10
  | log2
  | pow
  | sin
  | cos
  | tan
  | asin
  | acos
  | atan
  | ln
  | abs
  | rad
  | deg
  | round
  | floor
  | ceil
deriving DecidableEq

namespace NamedFunction

def name : NamedFunction → String
  | .sqrt => "sqrt"
  | .log => "log"
  | .log10 => "log10"
  | .log2 => "log2"
  | .pow => "pow"
  | .sin => "sin"
  | .cos => "cos"
  | .tan => "tan"
  | .asin => "asin"
  | .acos => "acos"
  | .atan => "atan"
  | .ln => "ln"
  | .abs => "abs"
  | .rad => "rad"
  | .deg => "deg"
  | .round => "round"
  | .floor => "floor"
  | .ceil => "ceil"

def all : List NamedFunction :=
  [.sqrt, .log, .log10, .log2, .pow, .sin, .cos, .tan, .asin, .acos, .atan, .ln, .abs, .rad, .deg,
    .round, .floor, .ceil]

def ofName? (name : String) : Option NamedFunction :=
  all.find? (·.name = name)

def arity : NamedFunction → Nat
  | .pow => 2
  | _ => 1

def radiansPerDegree : Binary64 :=
  Constant.value .pi / Binary64.ofNat 180

/-- The number of degrees in a radian, rounded from its decimal digits. -/
def degreesPerRadian : Binary64 :=
  (Decimal.mk 572957795130823208767981548141051703 (-34)).toBinary64 false

/-- The value at a list of arguments. A missing argument counts as the quiet `nan`, and arguments
beyond the arity are not looked at. -/
def apply (f : NamedFunction) (arguments : List Binary64) : Binary64 :=
  let x := arguments.getD 0 .quietNan
  match f with
  | .sqrt => x.sqrt
  | .log => x.log10
  | .log10 => x.log10
  | .log2 => x.log2
  | .pow => x.pow (arguments.getD 1 .quietNan)
  | .sin => x.sin
  | .cos => x.cos
  | .tan => x.tan
  | .asin => x.asin
  | .acos => x.acos
  | .atan => x.atan
  | .ln => x.ln
  | .abs => x.abs
  | .rad => x * radiansPerDegree
  | .deg => x * degreesPerRadian
  | .round => x.round
  | .floor => x.floor
  | .ceil => x.ceil

theorem ofName?_name (f : NamedFunction) : ofName? f.name = some f := by
  cases f <;> decide

end NamedFunction

end Calculator
