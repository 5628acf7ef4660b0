import AuthVault.Bytes

/-!
# Request targets

The target of a request is a path with a query, a full URI with a scheme and an authority, an
authority alone, or an asterisk. What matters of it is the path and the query; a fragment is
dropped.
-/

namespace AuthVault.Http

/-- The path and the query of a request target. -/
structure Uri where
  path : Bytes
  query : Option Bytes
  deriving DecidableEq

namespace Uri

def isPathByte (b : UInt8) : Bool :=
  b == 0x21 || b == 0x22 || (0x24 ≤ b && b ≤ 0x3b) || b == 0x3d || (0x40 ≤ b && b ≤ 0x5f) ||
    (0x61 ≤ b && b != 0x7f)

def isQueryByte (b : UInt8) : Bool :=
  b == 0x21 || (0x24 ≤ b && b ≤ 0x3b) || b == 0x3d || (0x3f ≤ b && b != 0x7f)

/-- Whether a byte may stand in an authority; a percent sign is told apart. -/
def isAuthorityByte (b : UInt8) : Bool :=
  b == 0x21 || b == 0x24 || (0x26 ≤ b && b ≤ 0x3b && b != 0x2f) || b == 0x3d ||
    (0x40 ≤ b && b ≤ 0x5d && b != 0x5c) || b == 0x5f || (0x61 ≤ b && b ≤ 0x7a) || b == 0x7e

def isSchemeByte (b : UInt8) : Bool :=
  b == 0x2b || b == 0x2d || b == 0x2e || (0x30 ≤ b && b ≤ 0x39) || (0x41 ≤ b && b ≤ 0x5a) ||
    (0x61 ≤ b && b ≤ 0x7a) || b == 0x7e

/-- The path and the query of what follows an authority, when all of it may stand there; an empty
path is a slash. -/
def ofPathAndQuery? (b : Bytes) : Option Uri :=
  let path := b.takeWhile fun x => x ≠ 63 ∧ x ≠ 35
  let rest := b.dropWhile fun x => x ≠ 63 ∧ x ≠ 35
  let query : Option Bytes := match rest with
    | 63 :: rest => some (rest.takeWhile fun x => x ≠ 35)
    | _ => none
  if path.all isPathByte ∧ (query.getD []).all isQueryByte ∧
      (Bytes.text? (path ++ 63 :: query.getD [])).isSome then
    some { path := if path = [] then [47] else path, query }
  else none

/-- What has been seen of an authority. -/
structure AuthorityScan where
  colons : Nat := 0
  isOpened : Bool := false
  isClosed : Bool := false
  hasPercent : Bool := false
  /-- Whether the last byte was an at sign. -/
  endsUser : Bool := false

/-- Takes a byte of an authority into account; `none` if it may not stand there. -/
def AuthorityScan.step (s : AuthorityScan) (b : UInt8) : Option AuthorityScan :=
  let t := { s with endsUser := false }
  if b = 58 then some { t with colons := t.colons + 1 }
  else if b = 91 then
    if s.hasPercent ∨ s.isOpened then none else some { t with isOpened := true }
  else if b = 93 then
    if ¬ s.isOpened ∨ s.isClosed then none
    else some { t with isClosed := true, colons := 0, hasPercent := false }
  else if b = 64 then some { t with colons := 0, hasPercent := false, endsUser := true }
  else if b = 37 then some { t with hasPercent := true }
  else if isAuthorityByte b then some t
  else none

/-- Goes through an authority up to a slash, a question mark or a number sign, or its ninth colon;
the second result is the number of bytes in front of that. -/
def scanAuthority (s : AuthorityScan) (size : Nat) : Bytes → Option (AuthorityScan × Option Nat)
  | [] => some (s, none)
  | b :: rest =>
    if b = 47 ∨ b = 63 ∨ b = 35 then some (s, some size)
    else if b = 58 ∧ 8 ≤ s.colons then some (s, none)
    else match s.step b with
      | none => none
      | some s => scanAuthority s (size + 1) rest

/-- The number of bytes that the authority in front takes up, if it is one. -/
def authoritySize? (b : Bytes) : Option Nat :=
  match scanAuthority {} 0 b with
  | none => none
  | some (s, stop) =>
    if s.isOpened ≠ s.isClosed ∨ 1 < s.colons ∨ s.hasPercent ∨ s.endsUser then none
    else some (stop.getD b.length)

/-- The bytes behind the scheme in front, if there is one; no result if the scheme is too long. -/
def afterScheme (b : Bytes) : Option (Option Bytes) :=
  let name := b.takeWhile isSchemeByte
  match b.drop name.length with
  | 58 :: 47 :: 47 :: rest =>
    if b.length ≤ 3 then some none
    else if 64 < name.length then none
    else some (some rest)
  | _ => some none

/-- Reads a request target of at most 65534 bytes. -/
def parse? (b : Bytes) : Option Uri :=
  if b = [] ∨ 65534 < b.length then none
  else if b = [42] then some { path := b, query := none }
  else if b.head? = some 47 then ofPathAndQuery? b
  else match afterScheme b with
    | none => none
    | some none =>
      if authoritySize? b = some b.length then some { path := [], query := none } else none
    | some (some rest) =>
      match authoritySize? rest with
      | none | some 0 => none
      | some n => ofPathAndQuery? (rest.drop n)

end Uri

end AuthVault.Http
