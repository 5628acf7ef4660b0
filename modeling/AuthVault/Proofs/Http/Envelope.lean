import AuthVault.Http.Envelope
import AuthVault.Proofs.Base64
import AuthVault.Proofs.Json.Number
import AuthVault.Proofs.Json.Value

/-!
# Envelopes are read back

Whoever reads the text of an envelope finds the code, the message and the values of it, those that are
left out in writing included (`Envelope.decode_encode`). An object is shown by one value with its id,
its owner and its payload, as a text if the payload is one and in Base64 if not (`shows_objectView`).
-/

namespace AuthVault.Http

open Json

namespace Envelope

/-- The slot of a part in a draft: empty if the part is left out. -/
def slot {α : Type} (isLeftOut : Prop) [Decidable isLeftOut] (part : α) : Option α :=
  if isLeftOut then none else some part

theorem getD_slot {α : Type} {isLeftOut : Prop} [Decidable isLeftOut] {part standard : α}
    (h : isLeftOut → part = standard) : (slot isLeftOut part).getD standard = part := by
  unfold slot
  split
  · next hout => exact (h hout).symm
  · rfl

/-- An envelope is read back whose values are legible, each one within the array of them. -/
theorem decode_encode {e : Envelope} (hcode : e.code < UInt16.size)
    (hvalues : ∀ v ∈ e.values, Legible (depthLimit - 2) v) :
    Record.decode (Record.encode e) = .ok e := by
  show decode layout.read (encode e) = .ok e
  obtain ⟨code, message, values⟩ := e
  have htakenCode : Taken layout.member
      (if code = 0 then [] else [("code", decimal code)]) {}
      ⟨slot (code = 0) code, none, none⟩ := by
    unfold slot
    split
    · exact .nil _
    · exact .cons _ (fun c rest hc => Layout.member_of_find? rfl rfl
        (bind_ok (readNatural_decimal hc (by decide) hcode))) (.nil _)
  have htakenMessage : Taken layout.member
      (if message = "" then [] else [("message", renderText message)])
      ⟨slot (code = 0) code, none, none⟩
      ⟨slot (code = 0) code, slot (message = "") message, none⟩ := by
    unfold slot
    split
    · exact .nil _
    · exact .cons _ (fun c rest _ => Layout.member_of_find? rfl rfl
        (bind_ok (readText_renderText message _))) (.nil _)
  have htakenValues : Taken layout.member
      (if values.isEmpty then [] else [("values", renderArray values)])
      ⟨slot (code = 0) code, slot (message = "") message, none⟩
      ⟨slot (code = 0) code, slot (message = "") message, slot values.isEmpty values⟩ := by
    unfold slot
    split
    · exact .nil _
    · exact .cons _ (fun c rest _ => Layout.member_of_find? rfl rfl
        (bind_ok (readList_renderArray hvalues _))) (.nil _)
  apply Layout.decode_renderObject ((htakenCode.append htakenMessage).append htakenValues)
  show some (Envelope.mk _ _ _) = _
  rw [getD_slot id, getD_slot id, getD_slot List.isEmpty_iff.1]

end Envelope

/-! ### Objects -/

/-- The one value that shows an object: its id, its owner, and its payload in the way that suits it. -/
inductive Shows (id owner : String) (payload : Bytes) : Value → Prop
  | text {text : String} (h : Bytes.text? payload = some text) :
      Shows id owner payload
        (.object [("id", .text id), ("json", .text text), ("owner", .text owner)])
  | base64 {encoded : String} (h : Bytes.text? payload = none)
      (hdecode : Base64.decode? (Bytes.ofText encoded) = some payload) :
      Shows id owner payload
        (.object [("id", .text id), ("owner", .text owner), ("payload_b64", .text encoded)])

theorem ofText_asciiText_encode (payload : Bytes) :
    Bytes.ofText (Bytes.asciiText (Base64.encode payload)) = Base64.encode payload :=
  ofText_asciiText fun b hb => (Base64.plain_encode payload b hb).1

theorem shows_objectView (o : StoredObject) : Shows o.id o.owner o.payload (objectView o) := by
  have hjson : ¬ "json" < "id" := by decide
  have hpayload : ¬ "payload_b64" < "id" := by decide
  have hownerId : ¬ "owner" < "id" := by decide
  have hownerJson : ¬ "owner" < "json" := by decide
  have hownerPayload : "owner" < "payload_b64" := by decide
  have htext : ∀ text, Value.ofMembers [("id", .text o.id), ("json", .text text),
      ("owner", .text o.owner)]
        = .object [("id", .text o.id), ("json", .text text), ("owner", .text o.owner)] := by
    intro text
    simp only [Value.ofMembers, List.foldl_cons, List.foldl_nil, insertMember, hjson, hownerId,
      hownerJson, String.reduceEq, if_false]
  have hbase64 : ∀ encoded, Value.ofMembers [("id", .text o.id), ("payload_b64", .text encoded),
      ("owner", .text o.owner)]
        = .object [("id", .text o.id), ("owner", .text o.owner), ("payload_b64", .text encoded)] := by
    intro encoded
    simp only [Value.ofMembers, List.foldl_cons, List.foldl_nil, insertMember, hpayload, hownerId,
      hownerPayload, String.reduceEq, if_false, if_true]
  unfold objectView StoredObject.payloadText?
  cases hread : Bytes.text? o.payload with
  | some text =>
    rw [htext text]
    exact .text hread
  | none =>
    rw [hbase64]
    refine .base64 hread ?_
    rw [StoredObject.payloadBase64, ofText_asciiText_encode, Base64.decode?_encode]

theorem legible_objectView (o : StoredObject) (depth : Nat) :
    Legible (depth + 1) (objectView o) := by
  refine legible_ofMembers fun m hm => ?_
  simp only [List.mem_cons, List.not_mem_nil, or_false] at hm
  rcases hm with rfl | rfl | rfl
  · exact .text depth o.id
  · split <;> exact .text depth _
  · exact .text depth o.owner

end AuthVault.Http
