namespace Smpl

/-- A double-precision number, kept as its 64 bits so that equality is exact. -/
structure Double where
  bits : UInt64
deriving DecidableEq, Repr, Inhabited

namespace Double

/-- Bits of the significand that are stored. -/
def fractionBits : Nat := 52

/-- The bits without the sign. Finite numbers are ordered by them. -/
def magnitudeBits (x : Double) : Nat :=
  x.bits.toNat % Nat.pow 2 63

def isNegative (x : Double) : Bool :=
  Nat.pow 2 63 ≤ x.bits.toNat

def exponentField (x : Double) : Nat :=
  x.magnitudeBits / Nat.pow 2 fractionBits

def fractionField (x : Double) : Nat :=
  x.magnitudeBits % Nat.pow 2 fractionBits

def isNaN (x : Double) : Bool :=
  x.exponentField == 2047 && x.fractionField != 0

def isInfinite (x : Double) : Bool :=
  x.exponentField == 2047 && x.fractionField == 0

def isFinite (x : Double) : Bool :=
  x.exponentField != 2047

/-- The number without its sign. -/
def abs (x : Double) : Double :=
  ⟨UInt64.ofNat x.magnitudeBits⟩

/-- Positive infinity, which reading gives for decimals past the largest finite number. -/
def infinity : Double :=
  ⟨0x7ff0000000000000⟩

/-- The integer significand of a finite number. Numbers below the normal range have no hidden bit. -/
def significand (x : Double) : Nat :=
  if x.exponentField = 0 then x.fractionField else Nat.pow 2 fractionBits + x.fractionField

/-- The power of two that the significand of a finite number is multiplied by. -/
def scale (x : Double) : Int :=
  if x.exponentField = 0 then -1074 else (x.exponentField : Int) - 1075

/-- The absolute value of a finite number as a fraction of naturals. -/
def ratio (x : Double) : Nat × Nat :=
  if 0 ≤ x.scale then (x.significand * Nat.pow 2 x.scale.toNat, 1)
  else (x.significand, Nat.pow 2 (-x.scale).toNat)

end Double

end Smpl
