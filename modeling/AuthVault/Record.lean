import AuthVault.Backend
import AuthVault.Json.Record

/-!
# Stored records

Records are kept as JSON texts under text keys. An empty value counts as no record.
-/

namespace AuthVault

/-- Types whose values are stored as records. -/
class Record (α : Type) where
  encode : α → Bytes
  decode : Bytes → Except DecodeError α

namespace Backend

variable {α : Type} [Record α]

/-- The record in a stored value. -/
def recordOf (stored : Option Bytes) : Action (Option α) :=
  match stored with
  | none | some [] => pure none
  | some value =>
    match Record.decode value with
    | .ok x => pure (some x)
    | .error e => throw (.codec e)

def putRecord (space key : String) (x : α) : Action Unit :=
  put space (Bytes.ofText key) (Record.encode x)

def getRecord (space key : String) : Action (Option α) := do
  recordOf (← get space (Bytes.ofText key))

end Backend

instance : Record Json.Value where
  encode := Json.Value.render
  decode := Json.decodeValue

end AuthVault
