import Calculator.Binary64.Basic

/-!
The interchange form of a number: one sign bit above 63 bits of magnitude. Those 63 bits are the
rank of a finite number; the pattern after the last rank is infinity and all patterns above it are
`nan`, the lower half of them signaling.
-/

namespace Calculator.Binary64

private def signBit (negative : Bool) : Nat :=
  if negative then 0x8000000000000000 else 0

private def quietMagnitude : Nat := 0x7FF8000000000000

/-- The bit pattern. Each kind of `nan` has its first pattern, without sign. -/
def toBits : Binary64 → UInt64
  | .nan signaling => UInt64.ofNat (if signaling then rankCount + 1 else quietMagnitude)
  | .infinity negative => UInt64.ofNat (signBit negative + rankCount)
  | .finite negative rank => UInt64.ofNat (signBit negative + rank)

private def ofMagnitude (negative : Bool) (magnitude : Nat) : Binary64 :=
  if h : magnitude < rankCount then .finite negative ⟨magnitude, h⟩
  else if magnitude = rankCount then .infinity negative
  else .nan (magnitude < quietMagnitude)

def ofBits (bits : UInt64) : Binary64 :=
  ofMagnitude (0x8000000000000000 ≤ bits.toNat) (bits.toNat % 0x8000000000000000)

end Calculator.Binary64
