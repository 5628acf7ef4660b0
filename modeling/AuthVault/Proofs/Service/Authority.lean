import AuthVault.Proofs.Service

/-!
# Every change is permitted

`Permitted` tells the entries that an operation may change, by what its caller presents and what is
stored before: the key of an admin, a password, the key of a session, the ownership of an object.
`differ_run`: whatever is stored, whichever faults fire and however the operation ends, no other
entry is changed by an operation, and no namespace comes or goes; the first admin, who has nobody to
permit it, is apart. Sessions must carry the email under which they are stored, since a use stores
the session anew under the email that it carries.

Each operation is a chain of checks and changes. A check that succeeds is the permission for what
comes after it, and what is found after a use of the session was there before it.
-/

namespace AuthVault.Service

open AuthVault.Action Contents
open IdentitySpace (users admins)

/-- The email and the key that an operation presents to use a session. -/
def Operation.session? : Operation → Option (String × String)
  | .validate email key | .logout email key | .putObject email key _ _ | .getObject email key _
  | .deleteObject email key _ => some (email, key)
  | _ => none

/-- The entries that an operation may change. -/
inductive Permitted (moment : Moment) (c : Contents) : Operation → String → Bytes → Prop
  /-- An admin registers a user. -/
  | newUser {key email password : String} (admin : AdminKey c key)
      (fresh : (users.load email).answer c = .ok none) :
      Permitted moment c (.createUser key email password) users.name (Bytes.ofText email)
  /-- An admin or the user deletes an account. -/
  | oldUser {proof : DeletionProof} {email : String} (entitled : Entitled c email proof) :
      Permitted moment c (.deleteUser proof email) users.name (Bytes.ofText email)
  /-- The session goes with the account. -/
  | oldUserSession {proof : DeletionProof} {email : String} (entitled : Entitled c email proof) :
      Permitted moment c (.deleteUser proof email) Sessions.space (Bytes.ofText email)
  /-- The objects go with the account of their owner. -/
  | oldUserObject {proof : DeletionProof} {email id : String} {object : StoredObject}
      (entitled : Entitled c email proof)
      (stored : (Objects.load id).answer c = .ok (some object)) (owned : object.owner = email) :
      Permitted moment c (.deleteUser proof email) Objects.space (Bytes.ofText id)
  /-- An admin registers an admin. -/
  | newAdmin {key email password : String} (admin : AdminKey c key)
      (fresh : (admins.load email).answer c = .ok none) :
      Permitted moment c (.createAdmin key email password) admins.name (Bytes.ofText email)
  /-- The index leads from the new key. -/
  | newAdminKey {key email password : String} (admin : AdminKey c key)
      (fresh : (admins.load email).answer c = .ok none) :
      Permitted moment c (.createAdmin key email password) Admins.keySpace
        (Bytes.ofText (Admins.newKey moment.now password))
  /-- An admin resigns. -/
  | oldAdmin {key : String} {account : Account}
      (admin : (Admins.authenticate key).answer c = .ok account) :
      Permitted moment c (.deleteAdmin key) admins.name (Bytes.ofText account.email)
  /-- The index no longer leads from the key. -/
  | oldAdminKey {key : String} (admin : AdminKey c key) :
      Permitted moment c (.deleteAdmin key) Admins.keySpace (Bytes.ofText key)
  /-- A user logs in. -/
  | newSession {email password : String} (right : Password c email password) :
      Permitted moment c (.login email password) Sessions.space (Bytes.ofText email)
  /-- A user makes use of a session. -/
  | session {op : Operation} {email key : String} (presents : op.session? = some (email, key))
      (live : SessionKey c moment.now email key) :
      Permitted moment c op Sessions.space (Bytes.ofText email)
  /-- A user stores an object that is new or their own. -/
  | object {email key id : String} {payload : Bytes} {found : Option StoredObject}
      (live : SessionKey c moment.now email key) (stored : (Objects.load id).answer c = .ok found)
      (owned : ∀ object, found = some object → object.owner = email) :
      Permitted moment c (.putObject email key id payload) Objects.space (Bytes.ofText id)
  /-- A user removes an object of their own. -/
  | oldObject {email key id : String} {object : StoredObject}
      (live : SessionKey c moment.now email key)
      (stored : (Objects.load id).answer c = .ok (some object)) (owned : object.owner = email) :
      Permitted moment c (.deleteObject email key id) Objects.space (Bytes.ofText id)

variable {moment : Moment} {b : Backend}

/-! ### Admins and users -/

theorem differ_createAdmin (key email password : String) :
    Differ (Permitted moment b.contents (.createAdmin key email password)) b.contents
      ((createAdmin moment key email password).run b).2.contents := by
  apply (readOnly_requireField _ _).differ_then
  intro _ b' hb' _
  apply (Admins.readOnly_authenticate key).differ_then
  intro account b'' hb'' hauth
  rw [hb'] at hb'' hauth
  refine Admins.differ_create (fun hload => ?_) fun hload => ?_
  all_goals rw [hb''] at hload
  · exact .newAdmin ⟨account, hauth⟩ hload
  · exact .newAdminKey ⟨account, hauth⟩ hload

theorem differ_deleteAdmin (key : String) :
    Differ (Permitted moment b.contents (.deleteAdmin key)) b.contents
      ((deleteAdmin key).run b).2.contents :=
  Admins.differ_delete (fun _ hauth => .oldAdmin hauth) fun account hauth =>
    .oldAdminKey ⟨account, hauth⟩

theorem differ_createUser (key email password : String) :
    Differ (Permitted moment b.contents (.createUser key email password)) b.contents
      ((createUser moment key email password).run b).2.contents := by
  apply (readOnly_requireField _ _).differ_then
  intro _ b' hb' _
  apply (Admins.readOnly_authenticate key).differ_then
  intro account b'' hb'' hauth
  rw [hb'] at hb'' hauth
  refine differ_bind (differ_bind (IdentitySpace.differ_insert fun hload => ?_) fun _ _ => .refl _)
    fun _ _ => .refl _
  rw [hb''] at hload
  exact .newUser ⟨account, hauth⟩ hload

theorem differ_deleteUser (proof : DeletionProof) (email : String) :
    Differ (Permitted moment b.contents (.deleteUser proof email)) b.contents
      ((deleteUser moment proof email).run b).2.contents := by
  apply (readOnly_requireField _ _).differ_then
  intro _ b' hb' _
  apply (readOnly_checkProof proof email).differ_then
  intro _ b'' hb'' hproof
  rw [hb'] at hb'' hproof
  have hentitled := answer_checkProof_eq_ok_iff.1 hproof
  apply differ_bind (IdentitySpace.differ_delete fun _ _ => .oldUser hentitled)
  intro _ _
  apply differ_bind (Sessions.differ_clear (.oldUserSession hentitled) _)
  intro _ _
  refine differ_bind ((Objects.purged_deleteAllIn moment.listing email _).differ
    fun id object hload howner => ?_) fun _ _ => .refl _
  -- Neither the account nor the session has been an object.
  have haccount : Differ (fun s _ => s ≠ Objects.space) b''.contents
      ((users.delete email).run b'').2.contents := IdentitySpace.differ_delete fun _ _ => by decide
  have hsession : Differ (fun s _ => s ≠ Objects.space) ((users.delete email).run b'').2.contents
      ((Sessions.clear email).run ((users.delete email).run b'').2).2.contents :=
    Sessions.differ_clear (by decide) _
  have hsame : (Objects.load id).answer _ = (Objects.load id).answer b''.contents :=
    Backend.answer_getRecord_of_differ (haccount.trans hsession) (not_not_intro rfl)
  exact .oldUserObject hentitled ((hb'' ▸ hsame) ▸ hload) howner

/-! ### Sessions -/

theorem differ_login (email password : String) :
    Differ (Permitted moment b.contents (.login email password)) b.contents
      ((login moment email password).run b).2.contents := by
  apply (readOnly_requireField _ _).differ_then
  intro _ b' hb' _
  apply Sessions.differ_login
  intro hcheck
  rw [hb'] at hcheck
  exact .newSession (IdentitySpace.answer_checkPassword_eq_ok_iff.1 hcheck)

section Use

variable {op : Operation} {email key id : String} {payload : Bytes}
  (hsessions : ∀ email session, (Sessions.get email).answer b.contents = .ok (some session) →
    session.email = email)
include hsessions

theorem differ_validate (hop : op.session? = some (email, key)) :
    Differ (Permitted moment b.contents op) b.contents
      ((validate moment email key).run b).2.contents := by
  apply Sessions.differ_validate
  intro session hget hlive
  rw [hsessions email session hget]
  exact .session hop ⟨session, hget, hlive⟩

theorem differ_logout (email key : String) :
    Differ (Permitted moment b.contents (.logout email key)) b.contents
      ((logout moment email key).run b).2.contents :=
  Sessions.differ_logout (hsessions email) fun session hget hlive =>
    .session rfl ⟨session, hget, hlive⟩

/-- What an object operation does after the use of the session is permitted with a live key, by the
objects found before it. -/
theorem differ_gated {α : Type} {x : Action α} (hop : op.session? = some (email, key))
    (hx : ∀ b', SessionKey b.contents moment.now email key →
      (∀ id, (Objects.load id).answer b'.contents = (Objects.load id).answer b.contents) →
      Differ (Permitted moment b.contents op) b'.contents (x.run b').2.contents) :
    Differ (Permitted moment b.contents op) b.contents
      ((validate moment email key >>= fun _ => x).run b).2.contents := by
  refine differ_bind (differ_validate hsessions hop) fun _ hok =>
    hx _ (Sessions.validate_of_ok hok) ?_
  have huse : Differ (fun s _ => s = Sessions.space) b.contents
      ((validate moment email key).run b).2.contents := Sessions.differ_validate fun _ _ _ => rfl
  exact fun id => Backend.answer_getRecord_of_differ huse (by decide)

theorem differ_putObject (email key id : String) (payload : Bytes) :
    Differ (Permitted moment b.contents (.putObject email key id payload)) b.contents
      ((putObject moment email key id payload).run b).2.contents := by
  apply (readOnly_requireField _ _).differ_then
  intro _ b' hb' _
  rw [← hb'] at hsessions ⊢
  apply differ_gated hsessions rfl
  intro b'' hkey hsame
  exact Objects.differ_put fun found hload howner => .object hkey (hsame id ▸ hload) howner

theorem differ_getObject (email key id : String) :
    Differ (Permitted moment b.contents (.getObject email key id)) b.contents
      ((getObject moment email key id).run b).2.contents :=
  differ_gated hsessions rfl fun b' _ _ => (Objects.readOnly_get id email).differ b'

theorem differ_deleteObject (email key id : String) :
    Differ (Permitted moment b.contents (.deleteObject email key id)) b.contents
      ((deleteObject moment email key id).run b).2.contents := by
  apply differ_gated hsessions rfl
  intro b' hkey hsame
  exact Objects.differ_delete fun object hload howner => .oldObject hkey (hsame id ▸ hload) howner

end Use

/-! ### All operations -/

/-- An operation other than the first admin's registration changes permitted entries only. -/
theorem differ_run (op : Operation) (moment : Moment) (b : Backend)
    (hop : ∀ email password, op ≠ .bootstrapAdmin email password)
    (hsessions : ∀ email session, (Sessions.get email).answer b.contents = .ok (some session) →
      session.email = email) :
    Differ (Permitted moment b.contents op) b.contents ((op.run moment).run b).2.contents := by
  cases op with
  | bootstrapAdmin email password => exact absurd rfl (hop email password)
  | checkAdmin key => exact differ_map _ ((Admins.readOnly_authenticate key).differ b)
  | createAdmin key email password => exact differ_map _ (differ_createAdmin key email password)
  | deleteAdmin key => exact differ_map _ (differ_deleteAdmin key)
  | createUser key email password => exact differ_map _ (differ_createUser key email password)
  | deleteUser proof email => exact differ_map _ (differ_deleteUser proof email)
  | login email password => exact differ_map _ (differ_login email password)
  | validate email key => exact differ_map _ (differ_validate hsessions rfl)
  | logout email key => exact differ_map _ (differ_logout hsessions email key)
  | putObject email key id payload =>
    exact differ_map _ (differ_putObject hsessions email key id payload)
  | getObject email key id => exact differ_map _ (differ_getObject hsessions email key id)
  | deleteObject email key id => exact differ_map _ (differ_deleteObject hsessions email key id)

def visited : Contents :=
  initial.write Sessions.space (Bytes.ofText "ann")
    (Record.encode (⟨"ann", "key", .last⟩ : Session))

theorem email_of_get_visited {email : String} {session : Session}
    (h : (Sessions.get email).answer visited = .ok (some session)) : session.email = email := by
  have hhas : initial.Has Sessions.space := (has_initial _).2 (by decide)
  by_cases hemail : email = "ann"
  · have hget : (Sessions.get "ann").answer visited = .ok (some ⟨"ann", "key", .last⟩) :=
      Backend.answer_getRecord_write hhas _
    rw [hemail, hget] at h
    rw [hemail, ← Option.some.inj (Except.ok.inj h)]
  · obtain ⟨value, hvalue, -⟩ := Backend.answer_getRecord_eq_some_iff.1 h
    rw [visited, value?_write_of_ne fun hkey => hemail (Bytes.ofText_inj.1 hkey.2),
      value?_initial] at hvalue
    contradiction

theorem differ_run_visited : Differ
    (Permitted .first visited (.validate "ann" "key")) visited
    (((Operation.validate "ann" "key").run .first).run
      ⟨visited, [⟨.put, Sessions.space, 1⟩]⟩).2.contents :=
  differ_run (.validate "ann" "key") .first
    ⟨visited, [⟨.put, Sessions.space, 1⟩]⟩ (fun _ _ h => by cases h)
    fun _ _ h => email_of_get_visited h

end AuthVault.Service
