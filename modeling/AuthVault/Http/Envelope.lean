import AuthVault.Object
import AuthVault.Record

/-!
# Envelopes

Every answer of the interface is an envelope: the values asked for, or a status and a message. Parts
that are zero or empty are left out.
-/

namespace AuthVault.Http

structure Envelope where
  code : Nat := 0
  message : String := ""
  values : List Json.Value := []

namespace Envelope

def ofValues (values : List Json.Value) : Envelope := { values }

def ofError (e : AuthError) : Envelope := { code := e.status, message := e.message }

structure Draft where
  code : Option Nat := none
  message : Option String := none
  values : Option (List Json.Value) := none

/-- How envelopes are read; each value may open two arrays or objects less than a whole text. -/
def layout : Json.Layout Draft Envelope where
  blank := {}
  fields := [
    ⟨"code", fun d => d.code.isSome, fun d => do
      return { d with code := some (← Json.readNatural UInt16.size) }⟩,
    ⟨"message", fun d => d.message.isSome, fun d => do
      return { d with message := some (← Json.readText) }⟩,
    ⟨"values", fun d => d.values.isSome, fun d => do
      return { d with values := some (← Json.readList (Json.readValue (Json.depthLimit - 2))) }⟩]
  build d :=
    some { code := d.code.getD 0, message := d.message.getD "", values := d.values.getD [] }

def encode (e : Envelope) : Bytes :=
  Json.renderObject <|
    (if e.code = 0 then [] else [("code", Json.decimal e.code)]) ++
    (if e.message = "" then [] else [("message", Json.renderText e.message)]) ++
    (if e.values.isEmpty then [] else [("values", Json.renderArray e.values)])

instance : Record Envelope where
  encode := encode
  decode := Json.decode layout.read

end Envelope

/-- An object as a value: its payload is a text where it is one, and in Base64 otherwise. -/
def objectView (o : StoredObject) : Json.Value :=
  let payload := match o.payloadText? with
    | some text => ("json", .text text)
    | none => ("payload_b64", .text (Bytes.asciiText o.payloadBase64))
  .ofMembers [("id", .text o.id), payload, ("owner", .text o.owner)]

end AuthVault.Http
