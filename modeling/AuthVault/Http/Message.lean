import AuthVault.Http.Uri

/-!
# Requests and responses

A request has a method, a target, headers and a body. Methods and the names of headers are tokens,
and the value of a header has no control characters but tabs.
-/

namespace AuthVault.Http

/-- The methods that are told apart. -/
inductive Method
  | get
  | head
  | put
  | delete
  | options
  | other
  deriving DecidableEq

def isTokenByte (b : UInt8) : Bool :=
  b == 0x21 || (0x23 ≤ b && b ≤ 0x27) || b == 0x2a || b == 0x2b || b == 0x2d || b == 0x2e ||
    (0x30 ≤ b && b ≤ 0x39) || (0x41 ≤ b && b ≤ 0x5a) || (0x5e ≤ b && b ≤ 0x7a) || b == 0x7c || b == 0x7e

def isToken (b : Bytes) : Bool := b ≠ [] && b.all isTokenByte

/-- The method of a name, which is a token. -/
def Method.ofName? (name : Bytes) : Option Method :=
  if !isToken name then none
  else match Bytes.asciiText name with
    | "GET" => some .get
    | "HEAD" => some .head
    | "PUT" => some .put
    | "DELETE" => some .delete
    | "OPTIONS" => some .options
    | _ => some .other

/-- A byte with a capital made small. -/
def lowerByte (b : UInt8) : UInt8 := if 65 ≤ b ∧ b ≤ 90 then b + 32 else b

def isValueByte (b : UInt8) : Bool := b == 9 || (32 ≤ b && b != 127)

/-- A header, by its small name; `none` if the name or the value cannot be one. -/
def header? (name value : Bytes) : Option (String × Bytes) :=
  if isToken name ∧ name.length ≤ 65535 ∧ value.all isValueByte then
    some (Bytes.asciiText (name.map lowerByte), value)
  else none

structure Request where
  method : Method
  uri : Uri
  headers : List (String × Bytes)
  body : Bytes
  deriving DecidableEq

/-- The request of the given parts, if each is valid. -/
def Request.build? (method uri : Bytes) (headers : List (Bytes × Bytes)) (body : Bytes) :
    Option Request := do
  let method ← Method.ofName? method
  let uri ← Uri.parse? uri
  let headers ← headers.mapM fun h => header? h.1 h.2
  return { method, uri, headers, body }

def Request.header? (r : Request) (name : String) : Option Bytes :=
  (r.headers.find? fun h => h.1 == name).map (·.2)

structure Response where
  status : Nat
  headers : List (String × Bytes)
  body : Bytes
  deriving DecidableEq

end AuthVault.Http
