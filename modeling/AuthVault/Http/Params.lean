import AuthVault.Http.Percent
import AuthVault.Json.Record
import AuthVault.Text.Lossy

/-!
# Request parameters

The query of a request is a list of names and values: parts between ampersands, split at the first
equals sign, with a plus for a space and percent encoding. Four names are known; others are passed
over, and a known name may come once. A parameter that is not given is the empty text.
-/

namespace AuthVault.Http

structure Params where
  email : String := ""
  pwhash : String := ""
  key : String := ""
  json : String := ""
  deriving DecidableEq

namespace Params

/-! ### Queries -/

/-- The parts between separators, with those already found in reverse. -/
def splitAfter (sep : UInt8) (done : List Bytes) (part : Bytes) : Bytes → List Bytes
  | [] => (part.reverse :: done).reverse
  | b :: rest =>
    if b = sep then splitAfter sep (part.reverse :: done) [] rest
    else splitAfter sep done (b :: part) rest

def unescape (b : Bytes) : String :=
  Text.lossy (Percent.decode (b.map fun x => if x = 43 then 32 else x))

/-- The names and values of a query. -/
def pairs (query : Bytes) : List (String × String) :=
  ((splitAfter 38 [] [] query).filter fun part => part ≠ []).map fun part =>
    let name := part.takeWhile fun x => x ≠ 61
    (unescape name, unescape ((part.drop name.length).drop 1))

structure Draft where
  email : Option String := none
  pwhash : Option String := none
  key : Option String := none
  json : Option String := none

def Draft.params (d : Draft) : Params where
  email := d.email.getD ""
  pwhash := d.pwhash.getD ""
  key := d.key.getD ""
  json := d.json.getD ""

/-- Takes a name and a value into a draft; the failure is a known name that is given already. -/
def Draft.assign (d : Draft) (name value : String) : Except String Draft :=
  match name with
  | "email" => if d.email.isSome then .error name else .ok { d with email := some value }
  | "pwhash" => if d.pwhash.isSome then .error name else .ok { d with pwhash := some value }
  | "key" => if d.key.isSome then .error name else .ok { d with key := some value }
  | "json" => if d.json.isSome then .error name else .ok { d with json := some value }
  | _ => .ok d

/-- Takes names and values into a draft, in their order. -/
def Draft.assignAll (d : Draft) : List (String × String) → Except String Draft
  | [] => .ok d
  | (name, value) :: rest =>
    match d.assign name value with
    | .ok d => d.assignAll rest
    | .error name => .error name

/-- The parameters of a query; the failure is the first known name that comes twice. -/
def ofQuery (query : Bytes) : Except String Params :=
  match Draft.assignAll {} (pairs query) with
  | .ok d => .ok d.params
  | .error name => .error name

/-! ### Records -/

def layout : Json.Layout Draft Params where
  blank := {}
  fields := [
    ⟨"email", fun d => d.email.isSome, fun d => do return { d with email := some (← Json.readText) }⟩,
    ⟨"pwhash", fun d => d.pwhash.isSome, fun d => do return { d with pwhash := some (← Json.readText) }⟩,
    ⟨"key", fun d => d.key.isSome, fun d => do return { d with key := some (← Json.readText) }⟩,
    ⟨"json", fun d => d.json.isSome, fun d => do return { d with json := some (← Json.readText) }⟩]
  build d := some d.params

def decode : Bytes → Except DecodeError Params := Json.decode layout.read

end Params

end AuthVault.Http
