/-!
Sets of characters given as ranges of code points.
-/

namespace Calculator.Unicode

/-- Inclusive ranges of code points, in rising order and without overlap. -/
abbrev Ranges := List (Nat × Nat)

/-- Whether a code point lies in one of the ranges. The search ends at the first range that starts
behind it. -/
def Ranges.containsCode : Ranges → Nat → Bool
  | [], _ => false
  | (first, last) :: rest, code =>
      first ≤ code && (code ≤ last || Ranges.containsCode rest code)

def Ranges.contains (ranges : Ranges) (c : Char) : Bool :=
  ranges.containsCode c.toNat

end Calculator.Unicode
