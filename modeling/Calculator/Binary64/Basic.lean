/-!
Binary floating-point numbers of 64 bits. A finite number is a sign and a rank: the place of its
magnitude in the increasing list of all finite magnitudes. Neighbouring magnitudes differ by one
in rank, an even rank is an even last binary digit, and `units` gives the exact magnitude as a
whole number of units of 2 ^ -1074. Powers of two are written as numerals of base sixteen:
`0x10000000000000` is 2 ^ 52.
-/

namespace Calculator

/-- The number of finite magnitudes: 2047 stretches of 2 ^ 52 each. -/
abbrev Binary64.rankCount : Nat := 0x7FF0000000000000

/-- A 64-bit floating-point number. What is not a number is `nan`, which is quiet in every result.
A signaling one comes only from outside, as a bit pattern; it keeps its kind where no more than a
sign is changed. -/
inductive Binary64 where
  | nan (signaling : Bool)
  | infinity (negative : Bool)
  | finite (negative : Bool) (rank : Fin Binary64.rankCount)
deriving DecidableEq

namespace Binary64

/-- The number of binary places of a unit: it is 2 ^ -1074, the smallest positive magnitude. The
number is kept folded, since powers with it as exponent are too long to look at. -/
@[irreducible] def unitPlaces : Nat := 1074

def unitsPerOne : Nat := 1 <<< unitPlaces

theorem unitsPerOne_pos : 0 < unitsPerOne := by
  rw [unitsPerOne, Nat.one_shiftLeft]
  exact Nat.two_pow_pos unitPlaces

/-- The magnitude of a rank, in units. The first 2 ^ 53 ranks are one unit apart; after them the
distance doubles with every stretch of 2 ^ 52 ranks. -/
def units (rank : Nat) : Nat :=
  if rank < 0x20000000000000 then rank
  else (0x10000000000000 + rank % 0x10000000000000) <<< (rank / 0x10000000000000 - 1)

def zero (negative : Bool) : Binary64 :=
  .finite negative ⟨0, by decide⟩

instance : Inhabited Binary64 := ⟨zero false⟩

def quietNan : Binary64 := .nan false

/-- The exact value of a finite number as a whole number of units. -/
def signedUnits (negative : Bool) (rank : Nat) : Int :=
  if negative then -(units rank : Int) else units rank

def isNan : Binary64 → Bool
  | .nan _ => true
  | _ => false

def isSignaling : Binary64 → Bool
  | .nan signaling => signaling
  | _ => false

def isFinite : Binary64 → Bool
  | .finite _ _ => true
  | _ => false

def neg : Binary64 → Binary64
  | .nan signaling => .nan signaling
  | .infinity negative => .infinity (!negative)
  | .finite negative rank => .finite (!negative) rank

def abs : Binary64 → Binary64
  | .nan signaling => .nan signaling
  | .infinity _ => .infinity false
  | .finite _ rank => .finite false rank

/-- Numeric equality: `nan` equals nothing, and the two zeros equal each other. -/
def equals : Binary64 → Binary64 → Bool
  | .infinity a, .infinity b => a == b
  | .finite a i, .finite b j => i == j && (a == b || i.val == 0)
  | _, _ => false

/-- Numeric order: `nan` is comparable to nothing, and each zero is below the other. -/
def le : Binary64 → Binary64 → Bool
  | .nan _, _ => false
  | _, .nan _ => false
  | .infinity true, _ => true
  | _, .infinity false => true
  | .infinity false, _ => false
  | _, .infinity true => false
  | .finite a i, .finite b j => signedUnits a i ≤ signedUnits b j

theorem units_of_lt {rank : Nat} (h : rank < 0x20000000000000) : units rank = rank := by
  unfold units
  exact if_pos h

theorem units_eq_zero_iff (rank : Nat) : units rank = 0 ↔ rank = 0 := by
  unfold units
  split
  · exact Iff.rfl
  · rename_i h
    rw [Nat.shiftLeft_eq]
    have hpos : 0 < (0x10000000000000 + rank % 0x10000000000000) *
        2 ^ (rank / 0x10000000000000 - 1) :=
      Nat.mul_pos (by omega) (Nat.two_pow_pos _)
    omega

end Binary64

end Calculator
