import AuthVault.Backend
import AuthVault.Time.Instant

/-!
# The snapshot format

A snapshot is a version, a time in milliseconds and the namespaces with their entries. Numbers are
little-endian, a count stands before every list, and a length before every name, key and value.
Bytes behind a complete snapshot are passed over. Entries may stand in any order; a later one
replaces an earlier one of its key.
-/

namespace AuthVault

/-- A snapshot as it is written. -/
structure Snapshot where
  version : Nat
  createdMillis : Int
  spaces : List (String × List (Bytes × Bytes))
  deriving DecidableEq

namespace Snapshot

/-- The version that is written and read. -/
def currentVersion : Nat := 1

/-- The snapshot that is made of contents: the namespaces by their names, and the entries of each in
the order in which the backend lists them. -/
def ofContents (listing : String → Listing (Bytes × Bytes)) (createdMillis : Int)
    (contents : Contents) : Snapshot where
  version := currentVersion
  createdMillis := createdMillis
  spaces := contents.entries.map fun e => (e.1, (listing e.1).order e.2.entries)

/-- The contents that a snapshot stands for. -/
def contents (s : Snapshot) : Contents := .ofList (s.spaces.map fun e => (e.1, .ofList e.2))

/-! ### Writing -/

def encodeCount (n : Nat) : Bytes := Bytes.littleEndian 8 n

def encodeBytes (b : Bytes) : Bytes := encodeCount b.length ++ b

def encodeEntry (e : Bytes × Bytes) : Bytes := encodeBytes e.1 ++ encodeBytes e.2

def encodeSpace (e : String × List (Bytes × Bytes)) : Bytes :=
  encodeBytes (Bytes.ofText e.1) ++ encodeCount e.2.length ++ e.2.flatMap encodeEntry

def encode (s : Snapshot) : Bytes :=
  Bytes.littleEndian 4 s.version ++ Bytes.littleEndian 8 (s.createdMillis % UInt64.size).toNat ++
    encodeCount s.spaces.length ++ s.spaces.flatMap encodeSpace

/-! ### Reading -/

/-- A reader from the front of a byte string. -/
abbrev Reader (α : Type) := StateT Bytes Option α

/-- Moves `n` bytes behind those already taken, which are in reverse. -/
def takeAfter (done : Bytes) : (n : Nat) → Bytes → Option (Bytes × Bytes)
  | 0, b => some (done.reverse, b)
  | _ + 1, [] => none
  | n + 1, x :: rest => takeAfter (x :: done) n rest

def takeBytes (n : Nat) : Reader Bytes := takeAfter [] n

/-- A number of `width` bytes. -/
def decodeNumber (width : Nat) : Reader Nat := do return Bytes.ofLittleEndian (← takeBytes width)

def decodeCount : Reader Nat := decodeNumber 8

def decodeBytes : Reader Bytes := do takeBytes (← decodeCount)

/-- `n` items behind those already read, which are in reverse. -/
def decodeItems {α : Type} (item : Reader α) : (n : Nat) → List α → Reader (List α)
  | 0, done => return done.reverse
  | n + 1, done => do decodeItems item n ((← item) :: done)

def decodeList {α : Type} (item : Reader α) : Reader (List α) := do decodeItems item (← decodeCount) []

def decodeEntry : Reader (Bytes × Bytes) := do return (← decodeBytes, ← decodeBytes)

def decodeSpace : Reader (String × List (Bytes × Bytes)) := do
  let name ← Bytes.text? (← decodeBytes)
  return (name, ← decodeList decodeEntry)

/-- The number from `-2 ^ 63` up that is congruent to `n`. -/
def signed (n : Nat) : Int := if n < UInt64.size / 2 then n else (n : Int) - UInt64.size

def decodeSnapshot : Reader Snapshot := do
  let version ← decodeNumber 4
  let createdMillis ← decodeNumber 8
  return { version, createdMillis := signed createdMillis, spaces := ← decodeList decodeSpace }

/-- The snapshot that a byte string begins with. -/
def decode? (b : Bytes) : Option Snapshot := (decodeSnapshot b).map (·.1)

/-- The contents of a snapshot of the current version. -/
def restore (b : Bytes) : Except BackendError Contents :=
  match decode? b with
  | none => .error (.corrupt .undecodable)
  | some s =>
    if s.version = currentVersion then .ok s.contents else .error (.corrupt (.version s.version))

end Snapshot

end AuthVault
