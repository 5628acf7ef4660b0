import AuthVault.Bytes

/-!
# Percent encoding

A percent sign with two hexadecimal digits stands for a byte; any other percent sign stands for
itself. `encode` writes every byte but letters and digits in that way, which `decode` takes back.
-/

namespace AuthVault.Http.Percent

/-- Decoded bytes behind those already made, which are in reverse. -/
def decodeAfter (done : Bytes) : Bytes → Bytes
  | [] => done.reverse
  | [x] => (x :: done).reverse
  | [x, y] => (y :: x :: done).reverse
  | b :: x :: y :: rest =>
    if b = 37 then
      match Bytes.hexValue? x, Bytes.hexValue? y with
      | some high, some low => decodeAfter ((16 * high + low).toUInt8 :: done) rest
      | _, _ => decodeAfter (b :: done) (x :: y :: rest)
    else decodeAfter (b :: done) (x :: y :: rest)

def decode (b : Bytes) : Bytes := decodeAfter [] b

def isPlain (b : UInt8) : Bool :=
  (48 ≤ b && b ≤ 57) || (65 ≤ b && b ≤ 90) || (97 ≤ b && b ≤ 122)

def encodeByte (b : UInt8) : Bytes :=
  if isPlain b then [b] else [37, Bytes.hexDigit (b.toNat / 16), Bytes.hexDigit (b.toNat % 16)]

def encode (b : Bytes) : Bytes := b.flatMap encodeByte

end AuthVault.Http.Percent
