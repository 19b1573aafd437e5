namespace Smpl.Text

/-- The characters that may stand around a written number. -/
def isBlank (c : Char) : Bool :=
  let n := c.toNat
  (0x09 ≤ n && n ≤ 0x0d) || n = 0x20 || n = 0x85 || n = 0xa0 || n = 0x1680 ||
    (0x2000 ≤ n && n ≤ 0x200a) || n = 0x2028 || n = 0x2029 || n = 0x202f || n = 0x205f || n = 0x3000

/-- The code points of the digits zero. Each starts a run of ten decimal digits. -/
def zeros : List Nat :=
  [0x30, 0x660, 0x6f0, 0x7c0, 0x966, 0x9e6, 0xa66, 0xae6, 0xb66, 0xbe6, 0xc66, 0xce6, 0xd66, 0xde6, 0xe50,
    0xed0, 0xf20, 0x1040, 0x1090, 0x17e0, 0x1810, 0x1946, 0x19d0, 0x1a80, 0x1a90, 0x1b50, 0x1bb0, 0x1c40,
    0x1c50, 0xa620, 0xa8d0, 0xa900, 0xa9d0, 0xa9f0, 0xaa50, 0xabf0, 0xff10, 0x104a0, 0x10d30, 0x11066,
    0x110f0, 0x11136, 0x111d0, 0x112f0, 0x11450, 0x114d0, 0x11650, 0x116c0, 0x11730, 0x118e0, 0x11950,
    0x11c50, 0x11d50, 0x11da0, 0x16a60, 0x16ac0, 0x16b50, 0x1d7ce, 0x1d7d8, 0x1d7e2, 0x1d7ec, 0x1d7f6,
    0x1e140, 0x1e2f0, 0x1e950, 0x1fbf0]

/-- The value of a decimal digit of any script. -/
def digit? (c : Char) : Option Nat :=
  (zeros.find? fun first => first ≤ c.toNat && c.toNat ≤ first + 9).map (c.toNat - ·)

/-- Reads digits with single underscores between them, after a digit. -/
def digits? : List Char → Option (List Nat)
  | [] => some []
  | '_' :: c :: rest => do
    let digit ← digit? c
    let others ← digits? rest
    return digit :: others
  | c :: rest => do
    let digit ← digit? c
    let others ← digits? rest
    return digit :: others

/-- The number that at least one digit writes. At most `limit` digits are read. -/
def natural? (limit : Nat) (chars : List Char) : Option Nat :=
  match chars with
  | [] | '_' :: _ => none
  | chars => do
    let digits ← digits? chars
    if digits.length ≤ limit then return digits.foldl (fun n digit => 10 * n + digit) 0 else none

def trimBlanks (chars : List Char) : List Char :=
  ((chars.dropWhile isBlank).reverse.dropWhile isBlank).reverse

/-- The integer that a text writes: an optional sign and digits, with blanks around. -/
def integer? (limit : Nat) (text : String) : Option Int :=
  match trimBlanks text.toList with
  | '-' :: rest => (natural? limit rest).map fun n => -(n : Int)
  | '+' :: rest => (natural? limit rest).map Int.ofNat
  | chars => (natural? limit chars).map Int.ofNat

end Smpl.Text
