import Smpl.Double.Shortest

namespace Smpl

namespace Decimal

/-- Positional notation with at least one digit on each side of the point. -/
def positional (d : Decimal) : String :=
  let digits := Nat.toDigits 10 d.digits
  if 0 ≤ d.exponent then
    String.ofList (digits ++ List.replicate d.exponent.toNat '0' ++ ['.', '0'])
  else
    let places := (-d.exponent).toNat
    let padded := List.replicate (places + 1 - digits.length) '0' ++ digits
    let whole := padded.take (padded.length - places)
    String.ofList (whole ++ '.' :: padded.drop whole.length)

/-- The power of ten of the leading digit. -/
def leading (d : Decimal) : Int :=
  ((Nat.toDigits 10 d.digits).length : Int) - 1 + d.exponent

/-- Scientific notation: one digit before the point, a signed exponent of at least two digits. -/
def scientific (d : Decimal) : String :=
  let mantissa :=
    match Nat.toDigits 10 d.digits with
    | [] => []
    | [digit] => [digit]
    | digit :: rest => digit :: '.' :: rest
  let power := Nat.toDigits 10 d.leading.natAbs
  let sign := if d.leading < 0 then '-' else '+'
  String.ofList (mantissa ++ 'e' :: sign :: (List.replicate (2 - power.length) '0' ++ power))

end Decimal

namespace Double

/-- The literal that a source file would hold for `x`: the shortest decimal that reads back, in
    positional notation with a point. Numbers that no literal denotes get a word in its place. -/
def literal (x : Double) : String :=
  if x.isNaN then "NaN.0"
  else
    let sign := if x.isNegative then "-" else ""
    if x.isInfinite then sign ++ "Infinity.0"
    else if x.magnitudeBits = 0 then sign ++ "0.0"
    else sign ++ x.abs.shortest.positional

/-- The display form of `x`: positional from a ten-thousandth up to sixteen whole digits,
    scientific outside that range. -/
def display (x : Double) : String :=
  if x.isNaN then "nan"
  else
    let sign := if x.isNegative then "-" else ""
    if x.isInfinite then sign ++ "inf"
    else if x.magnitudeBits = 0 then sign ++ "0.0"
    else
      let d := x.abs.shortest
      if -4 ≤ d.leading ∧ d.leading < 16 then sign ++ d.positional else sign ++ d.scientific

end Double

end Smpl
