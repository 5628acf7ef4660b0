import AuthVault.Time.Instant

/-!
# Time stamps

Written forms of an instant. `Instant.stamp` writes the shortest of no, three, six and nine fraction
digits, `Instant.seed` always nine; years outside 0 to 9999 carry a sign, and a leap second is
second 60. `Instant.ofStamp?` reads a laxer notation: white space between the parts, parts with
fewer digits, any offset from Coordinated Universal Time below a day.
-/

namespace AuthVault.Instant

open Text

/-! ### Writing -/

/-- A year: four digits, or a sign and at least four digits outside 0 to 9999. -/
def yearText (year : Int) : List Char :=
  if 0 ≤ year ∧ year ≤ 9999 then Decimal.padded 4 year.toNat
  else if year < 0 then '-' :: Decimal.padded 4 (-year).toNat
  else '+' :: Decimal.padded 4 year.toNat

/-- The shortest fraction of 0, 3, 6 or 9 digits that gives the nanoseconds exactly. -/
def shortFraction (nanos : Nat) : List Char :=
  if nanos = 0 then []
  else if nanos % 1_000_000 = 0 then '.' :: Decimal.padded 3 (nanos / 1_000_000)
  else if nanos % 1000 = 0 then '.' :: Decimal.padded 6 (nanos / 1000)
  else '.' :: Decimal.padded 9 nanos

def longFraction (nanos : Nat) : List Char := '.' :: Decimal.padded 9 nanos

/-- Date, time of day, fraction and the mark of Coordinated Universal Time. -/
def written (fraction : Nat → List Char) (t : Instant) : List Char :=
  let date := Date.ofDays (t.second / 86400)
  let secondOfDay := (t.second % 86400).toNat
  let isLeap := 1_000_000_000 ≤ t.nano
  let second := secondOfDay % 60 + if isLeap then 1 else 0
  let nanos := if isLeap then t.nano - 1_000_000_000 else t.nano
  yearText date.year ++ '-' :: Decimal.padded 2 date.month ++ '-' :: Decimal.padded 2 date.day ++
    'T' :: Decimal.padded 2 (secondOfDay / 3600) ++ ':' :: Decimal.padded 2 (secondOfDay / 60 % 60) ++
    ':' :: Decimal.padded 2 second ++ fraction nanos ++ ['Z']

def stamp (t : Instant) : String := String.ofList (written shortFraction t)

def seed (t : Instant) : String := String.ofList (written longFraction t)

/-! ### Reading -/

/-- A number of at least one and at most `width` digits, and what follows it. -/
def number? (width : Nat) (cs : List Char) : Option (Nat × List Char) :=
  let ds := (cs.take width).takeWhile Decimal.isDigit
  if ds = [] then none else some (Decimal.value ds, cs.drop ds.length)

/-- A number of any number of digits, if it is below a limit, and what follows it. -/
def numberBelow? (limit : Nat) (cs : List Char) : Option (Nat × List Char) :=
  let ds := cs.takeWhile Decimal.isDigit
  if ds = [] then none
  else (Decimal.valueBelow? limit ds).map fun n => (n, cs.dropWhile Decimal.isDigit)

/-- The years of the calendar, in either direction, lie below this one. -/
def yearLimit : Nat := 1_000_000

/-- A number after white space. -/
def part? (width : Nat) (cs : List Char) : Option (Nat × List Char) := number? width (trimStart cs)

/-- What follows a mark after white space. -/
def mark? (mark : Char) (cs : List Char) : Option (List Char) :=
  match trimStart cs with
  | c :: rest => if c = mark then some rest else none
  | [] => none

/-- A year after white space: up to four digits, or a sign and any number of digits for a year below
the limit. -/
def year? (cs : List Char) : Option (Int × List Char) :=
  match trimStart cs with
  | '-' :: rest => (numberBelow? yearLimit rest).map fun (n, rest) => (-(n : Int), rest)
  | '+' :: rest => (numberBelow? yearLimit rest).map fun (n, rest) => ((n : Int), rest)
  | rest => (number? 4 rest).map fun (n, rest) => ((n : Int), rest)

/-- The nanoseconds of a fraction, where one follows; digits beyond the ninth are passed over. -/
def fraction? : List Char → Option (Nat × List Char)
  | '.' :: rest => do
    let ds := (rest.take 9).takeWhile Decimal.isDigit
    if ds = [] then none
    else some (Decimal.value ds * Nat.pow 10 (9 - ds.length), (rest.drop ds.length).dropWhile Decimal.isDigit)
  | rest => some (0, rest)

/-- Two digits, and what follows them. -/
def twoDigits? : List Char → Option (Nat × List Char)
  | a :: b :: rest =>
    if Decimal.isDigit a ∧ Decimal.isDigit b then
      some (10 * Decimal.digitValue a + Decimal.digitValue b, rest)
    else none
  | _ => none

/-- Hours and minutes of an offset, in seconds; colons and white space may stand between them. -/
def offsetSize? (cs : List Char) : Option (Int × List Char) := do
  let (hours, rest) ← twoDigits? cs
  let (minutes, rest) ← twoDigits? (rest.dropWhile fun c => c = ':' || isBlank c)
  if minutes < 60 ∧ hours < 24 then some (3600 * hours + 60 * minutes, rest) else none

/-- Whether a character is a letter, in either case; the letter is given as a capital. -/
def isLetter (capital c : Char) : Bool := c = capital || c.toNat = capital.toNat + 32

/-- An offset from Coordinated Universal Time, in seconds, after white space. -/
def offset? (cs : List Char) : Option (Int × List Char) :=
  match trimStart cs with
  | c :: rest =>
    if isLetter 'Z' c then some (0, rest)
    else if c = '+' then offsetSize? rest
    else if c = '-' ∨ c = '\u2212' then (offsetSize? rest).map fun (n, rest) => (-n, rest)
    else
      match rest with
      | d :: e :: rest => if isLetter 'U' c ∧ isLetter 'T' d ∧ isLetter 'C' e then some (0, rest) else none
      | _ => none
  | [] => none

/-- The instant of a local date and time at an offset. -/
def ofLocal? (date : Date) (hour minute second nanos : Nat) (offset : Int) : Option Instant := do
  if ¬ date.isValid ∨ 24 ≤ hour ∨ 60 ≤ minute ∨ 61 ≤ second then none
  else
    let (second, nanos) := if second = 60 then (59, nanos + 1_000_000_000) else (second, nanos)
    let here ← ofParts? (date.toDays * 86400 + 3600 * hour + 60 * minute + second) nanos
    ofParts? (here.second - offset) nanos

def ofStamp? (s : String) : Option Instant := do
  let (year, rest) ← year? s.toList
  let rest ← mark? '-' rest
  let (month, rest) ← part? 2 rest
  let rest ← mark? '-' rest
  let (day, rest) ← part? 2 rest
  let rest ← match rest with
    | c :: rest => if isLetter 'T' c ∨ c = ' ' then some rest else none
    | [] => none
  let (hour, rest) ← part? 2 rest
  let rest ← mark? ':' rest
  let (minute, rest) ← part? 2 rest
  let rest ← mark? ':' rest
  let (second, rest) ← part? 2 rest
  let (nanos, rest) ← fraction? rest
  let (offset, rest) ← offset? rest
  if trimStart rest = [] then ofLocal? ⟨year, month, day⟩ hour minute second nanos offset else none

end AuthVault.Instant
