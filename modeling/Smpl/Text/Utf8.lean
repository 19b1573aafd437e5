namespace Smpl.Text

/-- Why bytes are no text. -/
inductive Utf8Cause
  | invalidStart
  | invalidContinuation
  | unexpectedEnd
deriving DecidableEq, Repr

/-- A sequence of bytes that is no text: where it starts, how many bytes it covers, its first byte. -/
structure Utf8Fault where
  cause : Utf8Cause
  position : Nat
  count : Nat
  byte : UInt8
deriving DecidableEq, Repr

/-- What the first byte of a character promises: how many bytes follow, the bounds of the next one
    (they exclude overlong forms, surrogates and numbers past the last code point), and the bits that
    it contributes. -/
structure Utf8Lead where
  following : Nat
  low : UInt8
  high : UInt8
  bits : Nat

def Utf8Lead.of? (byte : UInt8) : Option Utf8Lead :=
  let n := byte.toNat
  if n < 0x80 then some ⟨0, 0x80, 0xbf, n⟩
  else if n < 0xc2 then none
  else if n < 0xe0 then some ⟨1, 0x80, 0xbf, n - 0xc0⟩
  else if n = 0xe0 then some ⟨2, 0xa0, 0xbf, 0⟩
  else if n = 0xed then some ⟨2, 0x80, 0x9f, n - 0xe0⟩
  else if n < 0xf0 then some ⟨2, 0x80, 0xbf, n - 0xe0⟩
  else if n = 0xf0 then some ⟨3, 0x90, 0xbf, 0⟩
  else if n < 0xf4 then some ⟨3, 0x80, 0xbf, n - 0xf0⟩
  else if n = 0xf4 then some ⟨3, 0x80, 0x8f, n - 0xf0⟩
  else none

/-- What is left to read of the current character. -/
structure Utf8Pending where
  lead : UInt8
  position : Nat
  missing : Nat
  low : UInt8
  high : UInt8
  seen : Nat
  bits : Nat

/-- Decodes bytes from a position on, in the middle of a character if one is pending. -/
def decodeFrom (position : Nat) : Option Utf8Pending → List UInt8 → Except Utf8Fault (List Char)
  | none, [] => .ok []
  | some p, [] => .error ⟨.unexpectedEnd, p.position, p.seen, p.lead⟩
  | none, byte :: rest =>
    match Utf8Lead.of? byte with
    | none => .error ⟨.invalidStart, position, 1, byte⟩
    | some ⟨0, _, _, bits⟩ => (Char.ofNat bits :: ·) <$> decodeFrom (position + 1) none rest
    | some ⟨following, low, high, bits⟩ =>
      decodeFrom (position + 1) (some ⟨byte, position, following, low, high, 1, bits⟩) rest
  | some p, byte :: rest =>
    if p.low ≤ byte && byte ≤ p.high then
      let bits := p.bits * 64 + (byte.toNat - 0x80)
      if p.missing ≤ 1 then (Char.ofNat bits :: ·) <$> decodeFrom (position + 1) none rest
      else
        decodeFrom (position + 1)
          (some ⟨p.lead, p.position, p.missing - 1, 0x80, 0xbf, p.seen + 1, bits⟩) rest
    else .error ⟨.invalidContinuation, p.position, p.seen, p.lead⟩

/-- The text that bytes encode. -/
def decodeUtf8 (bytes : List UInt8) : Except Utf8Fault (List Char) :=
  decodeFrom 0 none bytes

end Smpl.Text
