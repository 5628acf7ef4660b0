import AuthVault.Base64
import AuthVault.Record

/-!
# Objects

An object is a payload with an owner, who is fixed when it is created and has every right to it;
nobody else has any. Bulk deletion removes all objects of an owner.
-/

namespace AuthVault

structure Permissions where
  owner : String
  deriving DecidableEq

namespace Permissions

def authorize (p : Permissions) (caller : String) : Except AuthError Unit :=
  if p.owner = caller then .ok () else .error (.unauthorized caller)

structure Draft where
  owner : Option String := none

def layout : Json.Layout Draft Permissions where
  blank := {}
  fields := [
    ⟨"owner", fun d => d.owner.isSome, fun d => do return { d with owner := some (← Json.readText) }⟩]
  build d := do
    return { owner := ← d.owner }

def encode (p : Permissions) : Bytes := Json.renderObject [("owner", Json.renderText p.owner)]

instance : Record Permissions where
  encode := encode
  decode := Json.decode layout.read

end Permissions

structure StoredObject where
  id : String
  payload : Bytes
  perms : Permissions
  deriving DecidableEq

namespace StoredObject

def owner (o : StoredObject) : String := o.perms.owner

/-- The payload as a text, if it is one. -/
def payloadText? (o : StoredObject) : Option String := Bytes.text? o.payload

def payloadBase64 (o : StoredObject) : Bytes := Base64.encode o.payload

def readPayload : Json.Reader Bytes := do
  match Base64.decode? (Bytes.ofText (← Json.readText)) with
  | some payload => return payload
  | none => throw .mistyped

structure Draft where
  id : Option String := none
  payload : Option Bytes := none
  perms : Option Permissions := none

def layout : Json.Layout Draft StoredObject where
  blank := {}
  fields := [
    ⟨"id", fun d => d.id.isSome, fun d => do return { d with id := some (← Json.readText) }⟩,
    ⟨"payload", fun d => d.payload.isSome, fun d => do return { d with payload := some (← readPayload) }⟩,
    ⟨"perms", fun d => d.perms.isSome, fun d => do
      return { d with perms := some (← Permissions.layout.read) }⟩]
  build d := do
    return { id := ← d.id, payload := ← d.payload, perms := ← d.perms }

def encode (o : StoredObject) : Bytes :=
  Json.renderObject [("id", Json.renderText o.id), ("payload", 34 :: o.payloadBase64 ++ [34]),
    ("perms", o.perms.encode)]

instance : Record StoredObject where
  encode := encode
  decode := Json.decode layout.read

end StoredObject

namespace Objects

def space : String := "object-objects"

def setup : Action Unit := Backend.createNamespace space

def load (id : String) : Action (Option StoredObject) := Backend.getRecord space id

def authorize (perms : Permissions) (caller : String) : Action Unit :=
  match perms.authorize caller with
  | .ok () => pure ()
  | .error e => throw e

/-- Stores a payload: a new object belongs to the caller, an old one keeps its owner. -/
def put (id : String) (payload : Bytes) (caller : String) : Action StoredObject := do
  let perms ← match ← load id with
    | some existing => do
      authorize existing.perms caller
      pure existing.perms
    | none => pure { owner := caller }
  let object : StoredObject := { id, payload, perms }
  Backend.putRecord space id object
  return object

/-- The object with an id, for its owner. -/
def get (id caller : String) : Action StoredObject := do
  match ← load id with
  | none => throw (.notFound ("object " ++ Text.quoted id))
  | some object =>
    authorize object.perms caller
    return object

def getPayload (id caller : String) : Action Bytes := do
  return (← get id caller).payload

/-- Removes an object, for its owner; there need not be one. -/
def delete (id caller : String) : Action Unit := do
  match ← load id with
  | none => pure ()
  | some object =>
    authorize object.perms caller
    Backend.delete space (Bytes.ofText id)

/-- Removes the objects of an owner among the given keys, in their order, and adds their number to
those already removed. Keys that are not texts are passed over. -/
def removeOwned (owner : String) : (keys : List Bytes) → (removed : Nat) → Action Nat
  | [], removed => return removed
  | key :: rest, removed =>
    match Bytes.text? key with
    | none => removeOwned owner rest removed
    | some id => do
      match ← load id with
      | some object =>
        if object.owner = owner then do
          Backend.delete space (Bytes.ofText id)
          removeOwned owner rest (removed + 1)
        else removeOwned owner rest removed
      | none => removeOwned owner rest removed

/-- Removes all objects of an owner, and returns their number. The backend lists the keys in some
order. -/
def deleteAllIn (listing : Listing Bytes) (owner : String) : Action Nat := do
  removeOwned owner (listing.order (← Backend.keys space)) 0

def deleteAll (owner : String) : Action Nat := deleteAllIn .ascending owner

end Objects

end AuthVault
