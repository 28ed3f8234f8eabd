import Calculator.Binary64.Rounding

/-!
The four operations. Each computes the exact result in units and rounds it once; the rules for
infinities, `nan` and the sign of zero stand in the cases.
-/

namespace Calculator.Binary64

/-- The sum. Opposite numbers add up to the positive zero, and infinities of opposite signs have
no sum. -/
def add : Binary64 → Binary64 → Binary64
  | .nan _, _ => quietNan
  | _, .nan _ => quietNan
  | .infinity a, .infinity b => if a = b then .infinity a else quietNan
  | .infinity a, .finite _ _ => .infinity a
  | .finite _ _, .infinity b => .infinity b
  | .finite a i, .finite b j =>
      let sum := signedUnits a i + signedUnits b j
      if sum = 0 then zero (a && b) else nearest (sum < 0) sum.natAbs 1

def sub (x y : Binary64) : Binary64 :=
  add x y.neg

/-- The product. Its sign is negative when the signs differ, also for zero. -/
def mul : Binary64 → Binary64 → Binary64
  | .nan _, _ => quietNan
  | _, .nan _ => quietNan
  | .infinity a, .infinity b => .infinity (a ^^ b)
  | .infinity a, .finite b j => if j.val = 0 then quietNan else .infinity (a ^^ b)
  | .finite a i, .infinity b => if i.val = 0 then quietNan else .infinity (a ^^ b)
  | .finite a i, .finite b j => nearest (a ^^ b) (units i * units j) unitsPerOne

/-- The quotient. A number divided by zero is infinite, but zero by zero is `nan`. -/
def div : Binary64 → Binary64 → Binary64
  | .nan _, _ => quietNan
  | _, .nan _ => quietNan
  | .infinity _, .infinity _ => quietNan
  | .infinity a, .finite b _ => .infinity (a ^^ b)
  | .finite a _, .infinity b => zero (a ^^ b)
  | .finite a i, .finite b j =>
      if j.val = 0 then
        if i.val = 0 then quietNan else .infinity (a ^^ b)
      else nearest (a ^^ b) (units i * unitsPerOne) (units j)

instance : Add Binary64 := ⟨add⟩
instance : Sub Binary64 := ⟨sub⟩
instance : Mul Binary64 := ⟨mul⟩
instance : Div Binary64 := ⟨div⟩
instance : Neg Binary64 := ⟨neg⟩

end Calculator.Binary64
