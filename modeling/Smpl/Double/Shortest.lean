import Smpl.Double.Decimal

namespace Smpl

/-- A positive decimal number `digits * 10 ^ exponent`. -/
structure Decimal where
  digits : Nat
  exponent : Int
deriving DecidableEq, Repr, Inhabited

/-- The power of ten of the leading digit of a positive fraction. -/
def leadingPower (numerator denominator : Nat) : Int :=
  if denominator ≤ numerator then ((Nat.toDigits 10 (numerator / denominator)).length : Int) - 1
  else -((Nat.toDigits 10 ((denominator - 1) / numerator)).length : Int)

/-- A fraction divided by a power of ten, still as a fraction. -/
def divideByTens (numerator denominator : Nat) (power : Int) : Nat × Nat :=
  if 0 ≤ power then (numerator, denominator * Nat.pow 10 power.toNat)
  else (numerator * Nat.pow 10 (-power).toNat, denominator)

namespace Decimal

def value (d : Decimal) : Double :=
  Double.ofDecimal d.digits d.exponent

/-- Moves trailing zeros of the digits into the exponent. -/
def trim : Nat → Decimal → Decimal
  | 0, d => d
  | n + 1, d =>
    if d.digits % 10 = 0 ∧ d.digits ≠ 0 then trim n ⟨d.digits / 10, d.exponent + 1⟩ else d

end Decimal

namespace Double

/-- The decimal with that many digits that is nearest to `x` among those that read back as `x`.
    Only the two neighbours of `x` can qualify when any does; a tie goes to the even digit. -/
def decimalOfLength? (x : Double) (length : Nat) : Option Decimal :=
  let (numerator, denominator) := x.ratio
  let exponent := leadingPower numerator denominator + 1 - length
  let (n, d) := divideByTens numerator denominator exponent
  let below : Decimal := ⟨n / d, exponent⟩
  let above : Decimal := ⟨n / d + 1, exponent⟩
  let twice := 2 * (n % d)
  let nearer := if twice < d ∨ (twice = d ∧ below.digits % 2 = 0) then below else above
  let farther := if nearer = below then above else below
  if nearer.value = x then some nearer
  else if farther.value = x then some farther
  else none

/-- The first length from `length` on, within the given number of tries, that reads back. -/
def shortestFrom (x : Double) (length : Nat) : Nat → Option Decimal
  | 0 => none
  | tries + 1 =>
    match x.decimalOfLength? length with
    | some d => some d
    | none => shortestFrom x (length + 1) tries

/-- The exact decimal value of a positive finite number. -/
def exactDecimal (x : Double) : Decimal :=
  if 0 ≤ x.scale then ⟨x.significand * Nat.pow 2 x.scale.toNat, 0⟩
  else ⟨x.significand * Nat.pow 5 (-x.scale).toNat, x.scale⟩

/-- The decimal with the fewest digits that reads back as the positive finite number `x`, the
    nearest one of that length. Seventeen digits are always enough. -/
def shortest (x : Double) : Decimal :=
  let d := (shortestFrom x 1 17).getD x.exactDecimal
  d.trim (Nat.toDigits 10 d.digits).length

end Double

end Smpl
