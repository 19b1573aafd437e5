import Smpl.Double.Basic

namespace Smpl

/-- The quotient of two naturals rounded to the nearest natural; a tie goes to the even one. -/
def roundQuotient (numerator denominator : Nat) : Nat :=
  let quotient := numerator / denominator
  let twice := 2 * (numerator % denominator)
  if twice < denominator then quotient
  else if denominator < twice then quotient + 1
  else if quotient % 2 = 0 then quotient
  else quotient + 1

/-- A fraction divided by a power of two, still as a fraction. -/
def divideByPower (numerator denominator : Nat) (power : Int) : Nat × Nat :=
  if 0 ≤ power then (numerator, denominator * Nat.pow 2 power.toNat)
  else (numerator * Nat.pow 2 (-power).toNat, denominator)

namespace Double

/-- The power of two of the last significand bit that a positive fraction needs. It never goes
    below the range of subnormal numbers. -/
def lastBit (numerator denominator : Nat) : Int :=
  let guess := max ((numerator.log2 : Int) - (denominator.log2 : Int) - 53) (-1074)
  let (n, d) := divideByPower numerator denominator guess
  if n < Nat.pow 2 53 * d then guess else guess + 1

/-- The double nearest to a fraction, ties to an even significand. Fractions that round past the
    largest finite number give infinity. -/
def ofRatio (numerator denominator : Nat) : Double :=
  if numerator = 0 then ⟨0⟩
  else
    let power := lastBit numerator denominator
    let (n, d) := divideByPower numerator denominator power
    let bits := (power + 1074).toNat * Nat.pow 2 fractionBits + roundQuotient n d
    if bits < 2047 * Nat.pow 2 fractionBits then ⟨UInt64.ofNat bits⟩ else infinity

/-- The double nearest to `digits * 10 ^ exponent`. -/
def ofDecimal (digits : Nat) (exponent : Int) : Double :=
  if 0 ≤ exponent then ofRatio (digits * Nat.pow 10 exponent.toNat) 1
  else ofRatio digits (Nat.pow 10 (-exponent).toNat)

/-- Reads the digits before and after a decimal point. -/
def ofDigits (whole fraction : List Char) : Double :=
  ofDecimal (Nat.ofDigitChars 10 (whole ++ fraction) 0) (-fraction.length)

end Double

end Smpl
