import AuthVault.Object
import AuthVault.Proofs.Base64
import AuthVault.Proofs.Json.Object
import AuthVault.Proofs.Time.Stamp
import AuthVault.Session

/-!
# Stored records read back

Whatever an account, a session or an object holds, its stored form stands for it (`decode_account`,
`decode_session`, `decode_object`) and is not empty, so it counts as a record. The members of a
stored form are taken by the fields of the layout in their order, each with the reader of its type:
`readText_renderText` for texts, `readStamp_stamp` for instants, `readPayload_renderPayload` for
payloads.
-/

namespace AuthVault

open Json

/-! ### Accounts -/

theorem readOptional_renderText (s : String) (rest : Bytes) :
    readOptional readText (renderText s ++ rest) = .ok (some s, rest) := by
  have hpeek : peek (renderText s ++ rest) = .ok (some 34, renderText s ++ rest) :=
    peek_cons (by decide) _
  rw [readOptional, bind_ok hpeek]
  show (readText >>= fun x => pure (some x)) _ = _
  rw [bind_ok (readText_renderText s rest)]
  rfl

theorem decode_account (a : Account) : Record.decode (Record.encode a) = .ok a := by
  show decode Account.layout.read (Account.encode a) = .ok a
  obtain ⟨email, ⟨salt, hash⟩, key⟩ := a
  have htexts : Taken Account.layout.member
      [("email", renderText email), ("salt", renderText salt), ("hash", renderText hash)] {}
      ⟨some email, some salt, some hash, none⟩ := by
    refine .cons ⟨some email, none, none, none⟩ (fun c rest _ => ?_)
      (.cons ⟨some email, some salt, none, none⟩ (fun c rest _ => ?_)
        (.cons ⟨some email, some salt, some hash, none⟩ (fun c rest _ => ?_) (.nil _)))
    · exact Layout.member_of_find? rfl rfl (bind_ok (readText_renderText email _))
    · exact Layout.member_of_find? rfl rfl (bind_ok (readText_renderText salt _))
    · exact Layout.member_of_find? rfl rfl (bind_ok (readText_renderText hash _))
  cases key with
  | none => exact Layout.decode_renderObject (htexts.append (.nil _)) rfl
  | some key =>
    have hkey : Taken Account.layout.member [("key", renderText key)]
        ⟨some email, some salt, some hash, none⟩
        ⟨some email, some salt, some hash, some (some key)⟩ := by
      refine .cons _ (fun c rest _ => ?_) (.nil _)
      exact Layout.member_of_find? rfl rfl (bind_ok (readOptional_renderText key _))
    exact Layout.decode_renderObject (htexts.append hkey) rfl

/-! ### Sessions -/

theorem readStamp_stamp (t : Instant) (rest : Bytes) :
    Session.readStamp (renderText t.stamp ++ rest) = .ok (t, rest) := by
  rw [Session.readStamp, bind_ok (readText_renderText t.stamp rest)]
  simp only [Instant.ofStamp?_stamp]
  rfl

theorem decode_session (s : Session) : Record.decode (Record.encode s) = .ok s := by
  show decode Session.layout.read (Session.encode s) = .ok s
  obtain ⟨email, key, expiresAt⟩ := s
  refine Layout.decode_renderObject (.cons ⟨some email, none, none⟩ (fun c rest _ => ?_)
    (.cons ⟨some email, some key, none⟩ (fun c rest _ => ?_)
      (.cons ⟨some email, some key, some expiresAt⟩ (fun c rest _ => ?_) (.nil _)))) rfl
  · exact Layout.member_of_find? rfl rfl (bind_ok (readText_renderText email _))
  · exact Layout.member_of_find? rfl rfl (bind_ok (readText_renderText key _))
  · exact Layout.member_of_find? rfl rfl (bind_ok (readStamp_stamp expiresAt _))

/-! ### Objects -/

theorem read_permissions (p : Permissions) (rest : Bytes) :
    Permissions.layout.read (p.encode ++ rest) = .ok (p, rest) := by
  refine Layout.read_renderObject (.cons ⟨some p.owner⟩ (fun c rest _ => ?_) (.nil _)) rfl rest
  exact Layout.member_of_find? rfl rfl (bind_ok (readText_renderText p.owner _))

theorem readPayload_encode (payload rest : Bytes) :
    StoredObject.readPayload (34 :: Base64.encode payload ++ [34] ++ rest)
      = .ok (payload, rest) := by
  have hplain := Base64.plain_encode payload
  have htext := readText_renderText (Bytes.asciiText (Base64.encode payload)) rest
  rw [renderText_asciiText hplain] at htext
  rw [StoredObject.readPayload, bind_ok htext, ofText_asciiText fun b hb => (hplain b hb).1]
  simp only [Base64.decode?_encode]
  rfl

theorem decode_object (o : StoredObject) : Record.decode (Record.encode o) = .ok o := by
  show decode StoredObject.layout.read (StoredObject.encode o) = .ok o
  obtain ⟨id, payload, perms⟩ := o
  refine Layout.decode_renderObject (.cons ⟨some id, none, none⟩ (fun c rest _ => ?_)
    (.cons ⟨some id, some payload, none⟩ (fun c rest _ => ?_)
      (.cons ⟨some id, some payload, some perms⟩ (fun c rest _ => ?_) (.nil _)))) rfl
  · exact Layout.member_of_find? rfl rfl (bind_ok (readText_renderText id _))
  · exact Layout.member_of_find? rfl rfl (bind_ok (readPayload_encode payload _))
  · exact Layout.member_of_find? rfl rfl (bind_ok (read_permissions perms _))

/-! ### All stored records -/

/-- Types whose stored forms stand for their values and are never empty. -/
class LawfulRecord (α : Type) [Record α] : Prop where
  decode_encode (x : α) : Record.decode (Record.encode x) = .ok x
  encode_ne_nil (x : α) : (Record.encode x : Bytes) ≠ []

instance : LawfulRecord Account := ⟨decode_account, fun _ => renderObject_ne_nil _⟩

instance : LawfulRecord Session := ⟨decode_session, fun _ => renderObject_ne_nil _⟩

instance : LawfulRecord StoredObject := ⟨decode_object, fun _ => renderObject_ne_nil _⟩

end AuthVault
