import Calculator.Decimal.Shortest

/-!
The text of a number: a minus sign where it applies, then the shortest digits that read back, in
positional notation however long that is. Whole numbers have no point.
-/

namespace Calculator.Binary64

def signText (negative : Bool) : String :=
  if negative then "-" else ""

def text : Binary64 → String
  | .nan _ => "NaN"
  | .infinity negative => signText negative ++ "inf"
  | .finite negative rank =>
      signText negative ++ String.ofList (Decimal.shortest rank).positional

end Calculator.Binary64
