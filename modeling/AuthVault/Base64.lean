import AuthVault.Bytes

/-!
# Base64

The standard alphabet with padding: three bytes make four characters, and one or two bytes at the
end make two or three with padding up to four. Decoding takes the canonical form only: full groups,
padding at the end alone, and no set bit beyond the last byte.
-/

namespace AuthVault.Base64

def padding : UInt8 := 61

def character (n : Nat) : UInt8 :=
  (if n < 26 then 65 + n
    else if n < 52 then 71 + n
    else if n < 62 then n - 4
    else if n = 62 then 43
    else 47).toUInt8

def value? (c : UInt8) : Option Nat :=
  let n := c.toNat
  if 65 ≤ n ∧ n ≤ 90 then some (n - 65)
  else if 97 ≤ n ∧ n ≤ 122 then some (n - 71)
  else if 48 ≤ n ∧ n ≤ 57 then some (n + 4)
  else if n = 43 then some 62
  else if n = 47 then some 63
  else none

def group (a b c : UInt8) : Bytes :=
  [character (a.toNat / 4), character (a.toNat % 4 * 16 + b.toNat / 16),
    character (b.toNat % 16 * 4 + c.toNat / 64), character (c.toNat % 64)]

def groupOfTwo (a b : UInt8) : Bytes :=
  [character (a.toNat / 4), character (a.toNat % 4 * 16 + b.toNat / 16),
    character (b.toNat % 16 * 4), padding]

def groupOfOne (a : UInt8) : Bytes :=
  [character (a.toNat / 4), character (a.toNat % 4 * 16), padding, padding]

/-- The characters of a byte string after those already written, which are in reverse. -/
def encodeAfter (done : Bytes) : Bytes → Bytes
  | a :: b :: c :: rest => encodeAfter ((group a b c).reverse ++ done) rest
  | [a, b] => done.reverse ++ groupOfTwo a b
  | [a] => done.reverse ++ groupOfOne a
  | [] => done.reverse

def encode (b : Bytes) : Bytes := encodeAfter [] b

def decodeLast? (p q r s : UInt8) : Option Bytes := do
  let p ← value? p
  let q ← value? q
  if r = padding then
    if s = padding ∧ q % 16 = 0 then some [(p * 4 + q / 16).toUInt8] else none
  else
    let r ← value? r
    if s = padding then
      if r % 4 = 0 then some [(p * 4 + q / 16).toUInt8, (q % 16 * 16 + r / 4).toUInt8] else none
    else
      let s ← value? s
      some [(p * 4 + q / 16).toUInt8, (q % 16 * 16 + r / 4).toUInt8, (r % 4 * 64 + s).toUInt8]

def decodeGroup? (p q r s : UInt8) : Option Bytes := do
  let p ← value? p
  let q ← value? q
  let r ← value? r
  let s ← value? s
  some [(p * 4 + q / 16).toUInt8, (q % 16 * 16 + r / 4).toUInt8, (r % 4 * 64 + s).toUInt8]

/-- The bytes of the characters that follow; `done` holds those already read, in reverse. -/
def decodeAfter? (done : Bytes) : Bytes → Option Bytes
  | [] => some done.reverse
  | [p, q, r, s] => (decodeLast? p q r s).map (done.reverse ++ ·)
  | p :: q :: r :: s :: rest =>
    match decodeGroup? p q r s with
    | some bytes => decodeAfter? (bytes.reverse ++ done) rest
    | none => none
  | _ => none

/-- The bytes that a canonical text stands for. -/
def decode? (text : Bytes) : Option Bytes := decodeAfter? [] text

theorem value?_character {n : Nat} (h : n < 64) : value? (character n) = some n := by
  have : ∀ n : Fin 64, value? (character n) = some n.val := by decide
  exact this ⟨n, h⟩

theorem character_ne_padding {n : Nat} (h : n < 64) : character n ≠ padding := by
  have : ∀ n : Fin 64, character n ≠ padding := by decide
  exact this ⟨n, h⟩

end AuthVault.Base64
