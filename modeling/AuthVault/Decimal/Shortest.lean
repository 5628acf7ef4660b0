import AuthVault.Text.Decimal

/-!
# Shortest decimals of binary fractions

A finite double is `m * 2 ^ q`. `Shortest.ofBits` finds the decimal with the fewest digits that is
nearer to it than to any other double, and of those the nearest: for one digit, two, and so on, it
tries the two neighbours of the number on the grid of decimals with so many digits, in exact
arithmetic.
-/

namespace AuthVault.Decimal

/-- The decimal `digits * 10 ^ exponent`. -/
structure Scaled where
  digits : Nat
  exponent : Int
  deriving DecidableEq

/-- A positive double, `mid / den`, with the interval of reals that are nearest to it, from `low /
den` to `high / den`. -/
structure Interval where
  low : Nat
  mid : Nat
  high : Nat
  den : Nat
  closed : Bool

/-- The interval of `m * 2 ^ q`; below a power of two the next double is twice as near. -/
def Interval.around (m : Nat) (q : Int) (atPower : Bool) : Interval :=
  let unit := Nat.pow 2 q.toNat
  { low := (if atPower then 4 * m - 1 else 4 * m - 2) * unit
    mid := 4 * m * unit
    high := (4 * m + 2) * unit
    den := 4 * Nat.pow 2 (-q).toNat
    closed := m % 2 == 0 }

def Interval.scale (i : Interval) (e : Int) : Interval :=
  if 0 ≤ e then
    let unit := Nat.pow 10 e.toNat
    { i with low := i.low * unit, mid := i.mid * unit, high := i.high * unit }
  else { i with den := i.den * Nat.pow 10 (-e).toNat }

/-- The whole number next to the middle that lies in the interval; of two the nearer, of two equally
near the even one. -/
def Interval.whole? (i : Interval) : Option Nat :=
  let below := i.mid / i.den
  let size := below * i.den
  let hasBelow := if i.closed then i.low ≤ size else i.low < size
  let hasAbove := if i.closed then size + i.den ≤ i.high else size + i.den < i.high
  if hasBelow then
    let distance := 2 * (i.mid - size)
    if ¬ hasAbove ∨ distance < i.den ∨ (distance = i.den ∧ below % 2 = 0) then some below
    else some (below + 1)
  else if hasAbove then some (below + 1)
  else none

/-- The greatest exponent that the first digit of a number below `2 ^ n` can have, or one more:
`30103 / 100000` is the decimal logarithm of two, within less than a unit for all doubles. -/
def exponentBound (n : Int) : Int := n * 30103 / 100000 + 1

/-- The exponent of the first digit: the `e` with `10 ^ e ≤ mid / den < 10 ^ (e + 1)`, between `e`
and `e - fuel`. -/
def leadingExponent (i : Interval) : (fuel : Nat) → (e : Int) → Int
  | 0, e => e
  | fuel + 1, e =>
    let j := i.scale (-e)
    if j.den ≤ j.mid then e else leadingExponent i fuel (e - 1)

/-- The decimal of the fewest digits in the interval, from `count` digits on. -/
def shortestFrom (i : Interval) (lead : Int) : (fuel count : Nat) → Scaled
  | 0, _ => ⟨0, 0⟩
  | fuel + 1, count =>
    let e := lead - count + 1
    match (i.scale (-e)).whole? with
    | some n => ⟨n, e⟩
    | none => shortestFrom i lead fuel (count + 1)

/-- The shortest decimal of the positive finite double with the given bits. -/
def shortest (bits : UInt64) : Scaled :=
  let biased := ((bits >>> 52) &&& 0x7ff).toNat
  let fraction := (bits &&& 0xfffffffffffff).toNat
  let m := if biased = 0 then fraction else fraction + Nat.pow 2 52
  let q : Int := if biased = 0 then -1074 else (biased : Int) - 1075
  let i := Interval.around m q (fraction == 0 && 1 < biased)
  shortestFrom i (leadingExponent i 4 (exponentBound (m.log2 + q + 1))) 17 1

end AuthVault.Decimal
