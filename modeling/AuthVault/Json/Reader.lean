import AuthVault.Error
import AuthVault.Json.Value

/-!
# Reading JSON

A reader takes what it reads from the front of a byte string, or fails with the first problem from
the left. This module reads the parts of a JSON text: white space, literals, strings, numbers, the
marks of arrays and objects, whole values to a limited depth (`readValue`), and values that are
passed over at any depth (`skipValue`). `decode` applies a reader to a whole text.

Each round of a loop takes at least one byte, so the text in front of a loop is also its fuel: a
round drops a byte of the fuel, and the fuel never runs out first.
-/

namespace AuthVault.Json

/-- A reader of something from the front of a byte string. -/
abbrev Reader (α : Type) := StateT Bytes (Except DecodeError) α

/-- Whether a byte is white space between the parts of a text. -/
def isSpace (b : UInt8) : Bool := b == 32 || b == 10 || b == 9 || b == 13

/-- What follows the white space in front. -/
def skipSpace (b : Bytes) : Bytes := b.dropWhile isSpace

/-- The first byte that is not white space, left in front. -/
def peek : Reader (Option UInt8) := fun b =>
  let b := skipSpace b
  .ok (b.head?, b)

def eat : Reader Unit := fun b => .ok ((), b.tail)

def literal : Bytes → Reader Unit
  | [], b => .ok ((), b)
  | _ :: _, [] => .error .truncated
  | c :: cs, x :: rest => if x = c then literal cs rest else .error .malformed

/-! ### Strings -/

/-- The number that four hexadecimal digits stand for. -/
def hexEscape : Bytes → Except DecodeError (Nat × Bytes)
  | a :: b :: c :: d :: rest =>
    match Bytes.hexValue? a, Bytes.hexValue? b, Bytes.hexValue? c, Bytes.hexValue? d with
    | some a, some b, some c, some d => .ok (((a * 16 + b) * 16 + c) * 16 + d, rest)
    | _, _, _, _ => .error .malformed
  | _ => .error .truncated

/-- The second half of a surrogate pair, whose first half is given. -/
def lowSurrogate (high : Nat) : Bytes → Except DecodeError (Bytes × Bytes)
  | [] => .error .truncated
  | x :: rest =>
    if x ≠ 92 then .error .malformed
    else match rest with
      | [] => .error .truncated
      | y :: rest =>
        if y ≠ 117 then .error .malformed
        else match hexEscape rest with
          | .error e => .error e
          | .ok (low, rest) =>
            if 0xdc00 ≤ low ∧ low ≤ 0xdfff then
              .ok (String.utf8EncodeChar
                (Char.ofNat ((high - 0xd800) * 0x400 + (low - 0xdc00) + 0x10000)), rest)
            else .error .malformed

/-- The UTF-8 bytes of a character given by its code unit, or by a pair of them. -/
def unicodeEscape (b : Bytes) : Except DecodeError (Bytes × Bytes) :=
  match hexEscape b with
  | .error e => .error e
  | .ok (n, rest) =>
    if 0xdc00 ≤ n ∧ n ≤ 0xdfff then .error .malformed
    else if 0xd800 ≤ n ∧ n ≤ 0xdbff then lowSurrogate n rest
    else .ok (String.utf8EncodeChar (Char.ofNat n), rest)

/-- The byte that a letter after a backslash stands for. -/
def shortEscape? (c : UInt8) : Option UInt8 :=
  if c = 34 ∨ c = 92 ∨ c = 47 then some c
  else if c = 98 then some 8
  else if c = 102 then some 12
  else if c = 110 then some 10
  else if c = 114 then some 13
  else if c = 116 then some 9
  else none

/-- The bytes that an escape stands for; the backslash is gone already. -/
def escaped : Bytes → Except DecodeError (Bytes × Bytes)
  | [] => .error .truncated
  | c :: rest =>
    match shortEscape? c with
    | some x => .ok ([x], rest)
    | none => if c = 117 then unicodeEscape rest else .error .malformed

/-- Passes over an escape; the backslash is gone already. -/
def skipEscape : Bytes → Except DecodeError Bytes
  | [] => .error .truncated
  | c :: rest =>
    match shortEscape? c with
    | some _ => .ok rest
    | none =>
      if c = 117 then
        match hexEscape rest with
        | .error e => .error e
        | .ok (_, rest) => .ok rest
      else .error .malformed

theorem hexEscape_length {b rest : Bytes} {n : Nat} (h : hexEscape b = .ok (n, rest)) :
    rest.length < b.length := by
  unfold hexEscape at h
  split at h
  · split at h
    · simp only [Except.ok.injEq, Prod.mk.injEq] at h
      rw [← h.2]; simp only [List.length_cons]; omega
    · contradiction
  · contradiction

theorem lowSurrogate_length {high : Nat} {b c rest : Bytes}
    (h : lowSurrogate high b = .ok (c, rest)) : rest.length < b.length := by
  unfold lowSurrogate at h
  split at h
  · contradiction
  · split at h
    · contradiction
    · split at h
      · contradiction
      · split at h
        · contradiction
        · split at h
          · contradiction
          · rename_i hx
            split at h
            · have := hexEscape_length hx
              simp only [Except.ok.injEq, Prod.mk.injEq] at h
              rw [← h.2]; simp only [List.length_cons]; omega
            · contradiction

theorem unicodeEscape_length {b c rest : Bytes} (h : unicodeEscape b = .ok (c, rest)) :
    rest.length < b.length := by
  unfold unicodeEscape at h
  split at h
  · contradiction
  · rename_i hx
    have := hexEscape_length hx
    split at h
    · contradiction
    · split at h
      · have := lowSurrogate_length h; omega
      · simp only [Except.ok.injEq, Prod.mk.injEq] at h
        rw [← h.2]; exact this

theorem escaped_length {b c rest : Bytes} (h : escaped b = .ok (c, rest)) :
    rest.length < b.length := by
  unfold escaped at h
  split at h
  · contradiction
  · split at h
    · simp only [Except.ok.injEq, Prod.mk.injEq] at h
      rw [← h.2]; simp
    · split at h
      · have := unicodeEscape_length h
        simp only [List.length_cons]; omega
      · contradiction

theorem skipEscape_length {b rest : Bytes} (h : skipEscape b = .ok rest) :
    rest.length < b.length := by
  unfold skipEscape at h
  split at h
  · contradiction
  · split at h
    · simp only [Except.ok.injEq] at h
      rw [← h]; simp
    · split at h
      · split at h
        · contradiction
        · rename_i hx
          have := hexEscape_length hx
          simp only [Except.ok.injEq] at h
          rw [← h]; simp only [List.length_cons]; omega
      · contradiction

/-- The bytes of a string up to its closing quote, after those already read, which are in reverse.
-/
def stringBytes (done : Bytes) : Bytes → Except DecodeError (Bytes × Bytes)
  | [] => .error .truncated
  | b :: rest =>
    if b = 34 then .ok (done.reverse, rest)
    else if b = 92 then
      match _h : escaped rest with
      | .error e => .error e
      | .ok (bytes, rest') => stringBytes (bytes.reverse ++ done) rest'
    else if b < 32 then .error .malformed
    else stringBytes (b :: done) rest
termination_by b => b.length
decreasing_by
  · have := escaped_length ‹_›
    simp only [List.length_cons]; omega
  · simp

/-- Passes over a string, up to its closing quote. -/
def skipString : Bytes → Except DecodeError (Unit × Bytes)
  | [] => .error .truncated
  | b :: rest =>
    if b = 34 then .ok ((), rest)
    else if b = 92 then
      match _h : skipEscape rest with
      | .error e => .error e
      | .ok rest' => skipString rest'
    else if b < 32 then .error .malformed
    else skipString rest
termination_by b => b.length
decreasing_by
  · have := skipEscape_length ‹_›
    simp only [List.length_cons]; omega
  · simp

/-- The text of a string whose opening quote is gone. -/
def stringText : Reader String := fun b =>
  match stringBytes [] b with
  | .error e => .error e
  | .ok (bytes, rest) =>
    match Bytes.text? bytes with
    | some s => .ok (s, rest)
    | none => .error .malformed

/-! ### Numbers -/

def isDigit (b : UInt8) : Bool := 48 ≤ b && b ≤ 57

def digitNext (b : Bytes) : Bool := b.head?.any isDigit

/-- Takes digits into a number as long as it stays below `2 ^ 64`, and counts them. -/
def absorbDigits (n count : Nat) : Bytes → Nat × Nat × Bytes
  | [] => (n, count, [])
  | b :: rest =>
    let m := 10 * n + (b.toNat - 48)
    if isDigit b ∧ m < UInt64.size then absorbDigits m (count + 1) rest else (n, count, b :: rest)

def dropDigits (count : Nat) : Bytes → Nat × Bytes
  | [] => (count, [])
  | b :: rest => if isDigit b then dropDigits (count + 1) rest else (count, b :: rest)

/-- The doubles nearest to the powers of ten, as far as there are any. -/
def powersOfTen : Array Float := (Array.range 309).map (Float.ofScientific 1 false)

def powerOfTen (e : Nat) : Float := powersOfTen.getD e 0

/-- The double for `n * 10 ^ e`, by one multiplication or division of the rounded number, or by two
divisions below `1e-308`; `none` beyond the greatest double. -/
def scaledDouble? (n : Nat) (e : Int) : Option Float :=
  let f := n.toUInt64.toFloat
  if 0 ≤ e then
    if e ≤ 308 then
      let g := f * powerOfTen e.toNat
      if g.isInf then none else some g
    else if n = 0 then some f
    else none
  else if -308 ≤ e then some (f / powerOfTen (-e).toNat)
  else
    let g := f / powerOfTen 308
    if -616 ≤ e then some (g / powerOfTen (-e - 308).toNat) else some (g / powerOfTen 308)

def doubleOf (isNegative : Bool) (n : Nat) (e : Int) (rest : Bytes) :
    Except DecodeError (Number × Bytes) :=
  match scaledDouble? n e with
  | some f => .ok (.double (if isNegative then -f else f).toBits, rest)
  | none => .error .malformed

/-- An exponent, after its letter, of a number with the given digits. -/
def exponentPart (isNegative : Bool) (n : Nat) (e : Int) (b : Bytes) :
    Except DecodeError (Number × Bytes) :=
  let (isBelow, b) := match b with
    | 43 :: rest => (false, rest)
    | 45 :: rest => (true, rest)
    | _ => (false, b)
  match b with
  | [] => .error .truncated
  | c :: rest =>
    if !isDigit c then .error .malformed
    else
      let (x, _, rest) := absorbDigits (c.toNat - 48) 0 rest
      if digitNext rest ∨ UInt32.size / 2 ≤ x then
        if n ≠ 0 ∧ !isBelow then .error .malformed
        else .ok (.double (if isNegative then (-0.0 : Float) else 0.0).toBits, (dropDigits 0 rest).2)
      else doubleOf isNegative n (if isBelow then e - x else e + x) rest

/-- The end of a number that has a fraction or an exponent. -/
def exponentOrEnd (isNegative : Bool) (n : Nat) (e : Int) : Bytes → Except DecodeError (Number × Bytes)
  | 101 :: rest | 69 :: rest => exponentPart isNegative n e rest
  | rest => doubleOf isNegative n e rest

/-- A fraction, after its point, of a number with the given digits; digits beyond 64 bits are left
out. -/
def fractionPart (isNegative : Bool) (n : Nat) (e : Int) (b : Bytes) :
    Except DecodeError (Number × Bytes) :=
  let (n, count, rest) := absorbDigits n 0 b
  if digitNext rest then exponentOrEnd isNegative n (e - count) (dropDigits 0 rest).2
  else if count = 0 then .error (if rest = [] then .truncated else .malformed)
  else exponentOrEnd isNegative n (e - count) rest

def wholeNumber (isNegative : Bool) (n : Nat) : Number :=
  if !isNegative then .natural n
  else if 0 < n ∧ n ≤ UInt64.size / 2 then .negative n
  else .double (-n.toUInt64.toFloat).toBits

def afterWhole (isNegative : Bool) (n : Nat) : Bytes → Except DecodeError (Number × Bytes)
  | 46 :: rest => fractionPart isNegative n 0 rest
  | 101 :: rest | 69 :: rest => exponentPart isNegative n 0 rest
  | rest => .ok (wholeNumber isNegative n, rest)

/-- What follows a whole part of `n * 10 ^ e` with more digits than 64 bits hold. -/
def afterLongWhole (isNegative : Bool) (n : Nat) (e : Int) : Bytes → Except DecodeError (Number × Bytes)
  | 46 :: rest => fractionPart isNegative n e rest
  | rest => exponentOrEnd isNegative n e rest

def unsignedNumber (isNegative : Bool) : Bytes → Except DecodeError (Number × Bytes)
  | [] => .error .truncated
  | c :: rest =>
    if !isDigit c then .error .malformed
    else if c = 48 then
      if digitNext rest then .error .malformed else afterWhole isNegative 0 rest
    else
      let (n, _, rest) := absorbDigits (c.toNat - 48) 0 rest
      if digitNext rest then
        let (e, rest) := dropDigits 0 rest
        afterLongWhole isNegative n e rest
      else afterWhole isNegative n rest

def readNumber : Reader Number
  | 45 :: rest => unsignedNumber true rest
  | b => unsignedNumber false b

def skipDigits (b : Bytes) : Except DecodeError Bytes :=
  if digitNext b then .ok (dropDigits 0 b).2 else .error .malformed

def skipExponent : Bytes → Except DecodeError Bytes
  | 43 :: rest | 45 :: rest => skipDigits rest
  | rest => skipDigits rest

/-- Passes over what may follow a number's digits before the point. -/
def skipFraction : Bytes → Except DecodeError Bytes
  | 46 :: rest =>
    match skipDigits rest with
    | .ok (101 :: rest) | .ok (69 :: rest) => skipExponent rest
    | other => other
  | 101 :: rest | 69 :: rest => skipExponent rest
  | rest => .ok rest

/-- Passes over a number of any size, without its sign. -/
def skipUnsigned : Bytes → Except DecodeError Bytes
  | 48 :: rest => if digitNext rest then .error .malformed else skipFraction rest
  | b => if digitNext b then skipFraction (dropDigits 0 b).2 else .error .malformed

def skipNumber : Reader Unit
  | 45 :: rest => (skipUnsigned rest).map fun rest => ((), rest)
  | b => (skipUnsigned b).map fun rest => ((), rest)

/-! ### Arrays and objects -/

/-- Whether an array has another item, which then comes next; `isFirst` if it is the first one. -/
def hasItem (isFirst : Bool) : Reader Bool := do
  match ← peek with
  | none => throw .truncated
  | some c =>
    if c = 93 then return false
    else if isFirst then return true
    else if c = 44 then
      eat
      match ← peek with
      | none => throw .truncated
      | some d => if d = 93 then throw .malformed else return true
    else throw .malformed

def endArray : Reader Unit := do
  match ← peek with
  | none => throw .truncated
  | some c => if c = 93 then eat else throw .malformed

/-- Whether an object has another member, whose opening quote then comes next. -/
def hasMember (isFirst : Bool) : Reader Bool := do
  match ← peek with
  | none => throw .truncated
  | some c =>
    if c = 125 then return false
    else if isFirst then
      if c = 34 then return true else throw .malformed
    else if c = 44 then
      eat
      match ← peek with
      | none => throw .truncated
      | some d => if d = 34 then return true else throw .malformed
    else throw .malformed

def colon : Reader Unit := do
  match ← peek with
  | none => throw .truncated
  | some c => if c = 58 then eat else throw .malformed

/-- The items that are left of an array, after those already read, which are in reverse. -/
def itemsFrom {α : Type} (item : Reader α) :
    (fuel : Bytes) → (isFirst : Bool) → List α → Reader (List α)
  | [], _, _ => throw .truncated
  | _ :: fuel, isFirst, done => do
    if ← hasItem isFirst then
      let x ← item
      itemsFrom item fuel false (x :: done)
    else
      eat
      return done.reverse

def items {α : Type} (item : Reader α) : Reader (List α) := fun b =>
  itemsFrom item (0 :: b) true [] b

/-- The members that are left of an object; `member` takes a name, whose colon and value come next,
into what has been read so far. -/
def membersFrom {σ : Type} (member : String → σ → Reader σ) :
    (fuel : Bytes) → (isFirst : Bool) → σ → Reader σ
  | [], _, _ => throw .truncated
  | _ :: fuel, isFirst, done => do
    if ← hasMember isFirst then
      eat
      let name ← stringText
      let next ← member name done
      membersFrom member fuel false next
    else return done

/-- The members of an object whose opening brace is gone, up to the closing one. -/
def members {σ : Type} (member : String → σ → Reader σ) (start : σ) : Reader σ := fun b =>
  membersFrom member (0 :: b) true start b

/-! ### Values -/

/-- A value, given how to go on inside an array and inside an object. -/
def valueWith (array object : Reader Value) : Reader Value := do
  match ← peek with
  | none => throw .truncated
  | some c =>
    if c = 110 then do literal [110, 117, 108, 108]; return .null
    else if c = 116 then do literal [116, 114, 117, 101]; return .bool true
    else if c = 102 then do literal [102, 97, 108, 115, 101]; return .bool false
    else if c = 45 ∨ isDigit c then return .number (← readNumber)
    else if c = 34 then do eat; return .text (← stringText)
    else if c = 91 then do array
    else if c = 123 then do object
    else throw .malformed

/-- A value in which at most `depth` arrays and objects are open at a time. -/
def readValue : (depth : Nat) → Reader Value
  | 0 => valueWith (throw .malformed) (throw .malformed)
  | depth + 1 =>
    valueWith
      (do eat; return .array (← items (readValue depth)))
      (do
        eat
        let ms ← members (fun name ms => do
          colon
          return insertMember name (← readValue depth) ms) []
        eat
        return .object ms)

/-- The arrays and objects that may be open at a time in a text whose content is kept. -/
def depthLimit : Nat := 127

/-- What is expected next while a value is passed over. -/
inductive Expectation
  | value
  | name
  | more

/-- Passes over the rest of a value; `frames` tells the open arrays (`true`) and objects. -/
def skipFrom : (fuel : Bytes) → Expectation → (frames : List Bool) → Reader Unit
  | [], _, _ => throw .truncated
  | _ :: fuel, .value, frames => do
    match ← peek with
    | none => throw .truncated
    | some c =>
      if c = 110 then do literal [110, 117, 108, 108]; skipFrom fuel .more frames
      else if c = 116 then do literal [116, 114, 117, 101]; skipFrom fuel .more frames
      else if c = 102 then do literal [102, 97, 108, 115, 101]; skipFrom fuel .more frames
      else if c = 45 ∨ isDigit c then do skipNumber; skipFrom fuel .more frames
      else if c = 34 then do eat; skipString; skipFrom fuel .more frames
      else if c = 91 then do
        eat
        if (← peek) = some 93 then do eat; skipFrom fuel .more frames
        else skipFrom fuel .value (true :: frames)
      else if c = 123 then do
        eat
        if (← peek) = some 125 then do eat; skipFrom fuel .more frames
        else skipFrom fuel .name (false :: frames)
      else throw .malformed
  | _ :: fuel, .name, frames => do
    match ← peek with
    | none => throw .truncated
    | some c =>
      if c = 34 then do
        eat
        skipString
        colon
        skipFrom fuel .value frames
      else throw .malformed
  | _ :: _, .more, [] => return ()
  | _ :: fuel, .more, isArray :: frames => do
    match ← peek with
    | none => throw .truncated
    | some c =>
      if c = 44 then do
        eat
        skipFrom fuel (if isArray then .value else .name) (isArray :: frames)
      else if c = (if isArray then 93 else 125) then do eat; skipFrom fuel .more frames
      else throw .malformed

/-- Passes over a value. -/
def skipValue : Reader Unit := fun b => skipFrom (0 :: 0 :: b) .value [] b

/-! ### Values of one type -/

/-- Fails on a value of another type than wanted, after reading as much of it as shows its type. -/
def refuse {α : Type} : Reader α := do
  match ← peek with
  | none => throw .malformed
  | some c =>
    if c = 110 then do literal [110, 117, 108, 108]; throw .mistyped
    else if c = 116 then do literal [116, 114, 117, 101]; throw .mistyped
    else if c = 102 then do literal [102, 97, 108, 115, 101]; throw .mistyped
    else if c = 45 ∨ isDigit c then do let _ ← readNumber; throw .mistyped
    else if c = 34 then do eat; let _ ← stringText; throw .mistyped
    else if c = 91 ∨ c = 123 then throw .mistyped
    else throw .malformed

def readText : Reader String := do
  match ← peek with
  | none => throw .truncated
  | some c => if c = 34 then do eat; stringText else refuse

/-- A natural number below a limit. -/
def readNatural (limit : Nat) : Reader Nat := do
  match ← peek with
  | none => throw .truncated
  | some c =>
    if c = 45 ∨ isDigit c then
      match ← readNumber with
      | .natural n => if n < limit then return n else throw .mistyped
      | _ => throw .mistyped
    else refuse

def readOptional {α : Type} (reader : Reader α) : Reader (Option α) := do
  if (← peek) = some 110 then do
    literal [110, 117, 108, 108]
    return none
  else return some (← reader)

def readList {α : Type} (item : Reader α) : Reader (List α) := do
  match ← peek with
  | none => throw .truncated
  | some c => if c = 91 then do eat; items item else refuse

/-! ### Whole texts -/

/-- What a reader makes of a whole text. -/
def decode {α : Type} (reader : Reader α) (text : Bytes) : Except DecodeError α :=
  match reader text with
  | .error e => .error e
  | .ok (x, rest) => if skipSpace rest = [] then .ok x else .error .malformed

def decodeValue (text : Bytes) : Except DecodeError Value := decode (readValue depthLimit) text

end AuthVault.Json
