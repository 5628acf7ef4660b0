import AuthVault.Bytes
import AuthVault.Decimal.Shortest

/-!
# JSON numbers

A number is a natural number below `2 ^ 64`, a negative one not below `-2 ^ 63`, or a double, kept
by its bits. Doubles are written with the fewest digits that read back: positionally from `1e-5` up
to `1e+16`, with `.0` behind whole numbers, and with a signed exponent beyond.
-/

namespace AuthVault.Json

inductive Number
  | natural (n : Nat)
  | negative (n : Nat)
  /-- The double with the given bits. -/
  | double (bits : UInt64)
  deriving DecidableEq

def decimal (n : Nat) : Bytes := (Text.Decimal.digits n).map fun c => c.toNat.toUInt8

/-- The text of a decimal: positional with `point` digits in front of the point, or with an exponent
and its sign. -/
def scaledText (d : Decimal.Scaled) : Bytes :=
  let ds := decimal d.digits
  let point : Int := ds.length + d.exponent
  let zeros (n : Int) : Bytes := List.replicate n.toNat 48
  if 0 ≤ d.exponent ∧ point ≤ 16 then ds ++ zeros d.exponent ++ [46, 48]
  else if 0 < point ∧ point ≤ 16 then ds.take point.toNat ++ 46 :: ds.drop point.toNat
  else if -5 < point ∧ point ≤ 0 then [48, 46] ++ zeros (-point) ++ ds
  else
    let e := point - 1
    let mantissa := if ds.length = 1 then ds else ds.take 1 ++ 46 :: ds.drop 1
    mantissa ++ 101 :: (if e < 0 then 45 :: decimal (-e).toNat else 43 :: decimal e.toNat)

/-- Trailing zeros moved into the exponent. -/
def trimZeros : (fuel : Nat) → Decimal.Scaled → Decimal.Scaled
  | 0, d => d
  | fuel + 1, d =>
    if d.digits ≠ 0 ∧ d.digits % 10 = 0 then trimZeros fuel ⟨d.digits / 10, d.exponent + 1⟩ else d

def doubleText (bits : UInt64) : Bytes :=
  let magnitude := bits &&& 0x7fffffffffffffff
  let body := if magnitude = 0 then [48, 46, 48] else scaledText (trimZeros 17 (Decimal.shortest magnitude))
  if bits = magnitude then body else 45 :: body

def Number.render : Number → Bytes
  | .natural n => decimal n
  | .negative n => 45 :: decimal n
  | .double bits => doubleText bits

end AuthVault.Json
