import Calculator.Binary64.Bits

/-!
Roots, powers, logarithms and circular functions. They are those of the machine's mathematical
library, reached through the bit pattern, so their last digits are that library's. Where they have
no result it is the quiet `nan`.
-/

namespace Calculator.Binary64

def toMachine (x : Binary64) : Float :=
  Float.ofBits x.toBits

/-- The number that the machine's form stands for; a result is never signaling. -/
def ofMachine (x : Float) : Binary64 :=
  match ofBits x.toBits with
  | .nan _ => quietNan
  | y => y

/-- Carries a function of the machine over. It is asked about numbers only. -/
private def lift (f : Float → Float) : Binary64 → Binary64
  | .nan _ => quietNan
  | x => ofMachine (f x.toMachine)

def sqrt : Binary64 → Binary64 := lift Float.sqrt
def sin : Binary64 → Binary64 := lift Float.sin
def cos : Binary64 → Binary64 := lift Float.cos
def tan : Binary64 → Binary64 := lift Float.tan
def asin : Binary64 → Binary64 := lift Float.asin
def acos : Binary64 → Binary64 := lift Float.acos
def atan : Binary64 → Binary64 := lift Float.atan

def ln : Binary64 → Binary64 := lift Float.log

def log2 : Binary64 → Binary64 := lift Float.log2

def log10 : Binary64 → Binary64 := lift Float.log10

/-- The power `x ^ y`. The exponent zero and the base one give one even with a quiet `nan` on the
other side, but not with a signaling one. -/
def pow (x y : Binary64) : Binary64 :=
  if x.isSignaling || y.isSignaling then quietNan
  else ofMachine (Float.pow x.toMachine y.toMachine)

end Calculator.Binary64
