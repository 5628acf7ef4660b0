import AuthVault.Text.Blank
import AuthVault.Text.Decimal

/-!
# Lengths of time

A span counts whole seconds in 64 bits and nanoseconds below one second. `Duration.ofText?` reads
the notation of the configuration: a number of seconds, or a number with one of the units `ms`, `s`,
`sec`, `secs`, `m`, `min`, `mins` and `h` in either case.
-/

namespace AuthVault

@[ext] structure Duration where
  secs : Nat
  /-- Nanoseconds beyond the whole seconds. -/
  nanos : Nat
  secs_lt : secs < 18_446_744_073_709_551_616 := by omega
  nanos_lt : nanos < 1_000_000_000 := by omega
  deriving DecidableEq

namespace Duration

def toNanos (d : Duration) : Nat := d.secs * 1_000_000_000 + d.nanos

/-- The length in whole milliseconds, rounded down. -/
def toMillis (d : Duration) : Nat := d.secs * 1000 + d.nanos / 1_000_000

def isZero (d : Duration) : Bool := d.secs == 0 && d.nanos == 0

def seconds (n : Nat) (h : n < 18_446_744_073_709_551_616 := by omega) : Duration :=
  { secs := n, nanos := 0, secs_lt := h }

/-- A number of whole seconds, when it fits. -/
def ofSecs? (n : Nat) : Option Duration :=
  if h : n < 18_446_744_073_709_551_616 then some (seconds n h) else none

/-- A number of milliseconds, when it fits 64 bits. -/
def ofMillis? (n : Nat) : Option Duration :=
  if h : n < 18_446_744_073_709_551_616 then
    some { secs := n / 1000, nanos := n % 1000 * 1_000_000, secs_lt := by omega, nanos_lt := by omega }
  else none

inductive Measure
  | millis
  | secs
  | minutes
  | hours
  deriving DecidableEq

/-- The lower-case form of an ASCII capital; any other character as it is. -/
def lower (c : Char) : Char :=
  if 'A' ≤ c ∧ c ≤ 'Z' then Char.ofNat (c.toNat + 32) else c

/-- The unit that a name stands for, in either case. -/
def Measure.ofName? (name : List Char) : Option Measure :=
  match String.ofList (name.map lower) with
  | "ms" => some .millis
  | "s" | "sec" | "secs" => some .secs
  | "m" | "min" | "mins" => some .minutes
  | "h" => some .hours
  | _ => none

/-- `n` units of time, when their number of seconds fits. -/
def ofUnits? (n : Nat) : Measure → Option Duration
  | .millis => ofMillis? n
  | .secs => ofSecs? n
  | .minutes => ofSecs? (60 * n)
  | .hours => ofSecs? (3600 * n)

/-- Reads a number, below `2 ^ 64`, with a unit; seconds where none is given. -/
def ofText? (s : String) : Option Duration :=
  let cs := Text.trim s.toList
  let number := cs.takeWhile Text.Decimal.isDigit
  let rest := cs.dropWhile Text.Decimal.isDigit
  if number = [] then none
  else match Text.Decimal.valueBelow? UInt64.size number with
    | none => none
    | some n =>
      if rest = [] then ofUnits? n .secs else (Measure.ofName? (Text.trim rest)).bind (ofUnits? n)

theorem toNanos_inj {d e : Duration} : d.toNanos = e.toNanos ↔ d = e := by
  refine ⟨fun h => ?_, fun h => h ▸ rfl⟩
  have := d.nanos_lt
  have := e.nanos_lt
  unfold toNanos at h
  ext <;> omega

theorem toNanos_pos_iff {d : Duration} : 0 < d.toNanos ↔ d.isZero = false := by
  simp only [toNanos, isZero, Bool.and_eq_false_iff, beq_eq_false_iff_ne]
  omega

end Duration

end AuthVault
