import AuthVault.Time.Calendar
import AuthVault.Time.Duration

/-!
# Instants

A point in Coordinated Universal Time: seconds counted from 1970 and nanoseconds within the second,
for the years -262143 to 262142. A leap second is the 61st of its minute: its nanoseconds are
counted on from those of the 60th. `Instant.after?` adds a span, `Instant.expiry` adds one and stays
at the last instant where the sum has none.
-/

namespace AuthVault

@[ext] structure Instant where
  /-- Seconds since 1970-01-01. -/
  second : Int
  /-- Nanoseconds since the second began; a leap second counts on from `1_000_000_000`. -/
  nano : Nat
  lower : -8334601228800 ≤ second := by omega
  upper : second ≤ 8210266876799 := by omega
  nano_lt : nano < 2_000_000_000 := by omega
  leap : 1_000_000_000 ≤ nano → second % 60 = 59 := by omega
  deriving DecidableEq

namespace Instant

/-- The last instant that is not in a leap second. -/
def last : Instant := { second := 8210266876799, nano := 999999999 }

def first : Instant := { second := -8334601228800, nano := 0 }

/-- The instant with the given parts, when there is one. -/
def ofParts? (second : Int) (nano : Nat) : Option Instant :=
  if h : -8334601228800 ≤ second ∧ second ≤ 8210266876799 ∧ nano < 2_000_000_000 ∧
      (1_000_000_000 ≤ nano → second % 60 = 59) then
    some { second, nano, lower := h.1, upper := h.2.1, nano_lt := h.2.2.1, leap := h.2.2.2 }
  else none

theorem ofParts?_parts (t : Instant) : ofParts? t.second t.nano = some t := by
  unfold ofParts?
  rw [dif_pos ⟨t.lower, t.upper, t.nano_lt, t.leap⟩]

/-- Nanoseconds since 1970-01-01. -/
def toNanos (t : Instant) : Int := t.second * 1_000_000_000 + t.nano

def notAfter (s t : Instant) : Bool :=
  decide (s.second < t.second) || (s.second == t.second && decide (s.nano ≤ t.nano))

/-- The longest span that is added as it is: `2 ^ 63 - 1` milliseconds. -/
def longestSpan : Duration := { secs := 9223372036854775, nanos := 807000000 }

/-- A span, cut down to the longest one. -/
def spanOf (d : Duration) : Duration :=
  if longestSpan.secs < d.secs ∨ (d.secs = longestSpan.secs ∧ longestSpan.nanos < d.nanos)
  then longestSpan else d

/-- The instant a span later than one outside leap seconds: nanoseconds are added, and a full second is
carried; `none` past the end of the calendar. -/
def after? (t : Instant) (d : Duration) : Option Instant :=
  let nano := t.nano + d.nanos
  if nano < 1_000_000_000 then ofParts? (t.second + d.secs) nano
  else ofParts? (t.second + d.secs + 1) (nano - 1_000_000_000)

/-- The end of a window that opens now: the last instant, if it has no end in the calendar. -/
def expiry (now : Instant) (window : Duration) : Instant :=
  (now.after? (spanOf window)).getD last

end Instant

end AuthVault
