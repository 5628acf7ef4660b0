import AuthVault.Proofs.Service.Registration

/-!
# Objects in the custody of their owner

A use leaves a session live at the instant of the use, since the window that it opens is still open
then (`live_write`). So the owner of an object puts it and gets it at the same instant: what is put
under an id that is absent or the caller's own belongs to the caller (`on_putObject_of_live`), and the
object that is got is the one that was put (`getObject_of_putObject`).
-/

namespace AuthVault

open AuthVault.Action Contents

variable {c : Contents} {email key id : String} {session : Session}

theorem Instant.notAfter_trans {r s t : Instant} (hrs : r.notAfter s = true)
    (hst : s.notAfter t = true) : r.notAfter t = true := by
  simp only [notAfter, Bool.or_eq_true, Bool.and_eq_true, decide_eq_true_eq, beq_iff_eq] at *
  omega

namespace Sessions

variable {now : Instant} {window : Duration}

/-- What a use stores leaves the session live at that instant, provided that no session ends beyond
the calendar. -/
theorem live_write (hget : (get email).answer c = .ok (some session)) (hlive : Live now key session)
    (hend : session.expiresAt.notAfter .last = true) (hwindow : window.isZero = false) :
    ∃ session', (get email).answer (c.write space (Bytes.ofText session.email)
      (Record.encode (slid now window session))) = .ok (some session') ∧ Live now key session' := by
  have hnow : Instant.last.notAfter now = false := by
    cases hlast : Instant.last.notAfter now with
    | false => rfl
    | true =>
      have hexpired := Instant.notAfter_trans hend hlast
      rw [hlive.lasts] at hexpired
      contradiction
  by_cases hemail : session.email = email
  · rw [hemail]
    exact ⟨slid now window session,
      Backend.answer_getRecord_write (Backend.has_of_answer_getRecord hget) _, hlive.key_eq,
      Instant.notAfter_expiry hwindow hnow⟩
  · exact ⟨session, (Backend.answer_getRecord_write_of_key_ne (Ne.symm hemail)).trans hget, hlive⟩

end Sessions

namespace Service

open IdentitySpace (users)
open Sessions (Live)

variable {moment : Moment} {payload : Bytes}

theorem getObject_eq (moment : Moment) (email key id : String) : getObject moment email key id =
    Sessions.validate moment.now moment.window email key >>= fun _ => Objects.get id email := rfl

theorem putObject_eq (moment : Moment) (email key id : String) (payload : Bytes) :
    putObject moment email key id payload = requireField "id" id >>= fun _ =>
      Sessions.validate moment.now moment.window email key >>= fun _ =>
        Objects.put id payload email := rfl

theorem steady_putObject (moment : Moment) (email key id : String) (payload : Bytes) :
    (putObject moment email key id payload).Steady :=
  (readOnly_requireField _ _).steady.bind fun _ =>
    (Sessions.atomic_validate moment.now moment.window email key).steady.bind fun _ =>
      (Objects.atomic_put id payload email).steady

/-- An id under which a caller may put an object: none is there, or one of the caller. -/
def Vacant (c : Contents) (id caller : String) : Prop :=
  (Objects.load id).answer c = .ok none ∨
    ∃ object, (Objects.load id).answer c = .ok (some object) ∧ object.owner = caller

theorem Vacant.on_put (h : Vacant c id email) (payload : Bytes) :
    (Objects.put id payload email).on c = (.ok ⟨id, payload, ⟨email⟩⟩,
      c.write Objects.space (Bytes.ofText id)
        (Record.encode (⟨id, payload, ⟨email⟩⟩ : StoredObject))) := by
  rw [Objects.on_put]
  rcases h with h | ⟨⟨id', payload', ⟨owner⟩⟩, h, rfl⟩
  · rw [h]
  · rw [h]
    exact if_pos rfl

theorem Vacant.has (h : Vacant c id email) : c.Has Objects.space := by
  rcases h with h | ⟨object, h, -⟩
  · exact Backend.has_of_answer_getRecord h
  · exact Backend.has_of_answer_getRecord h

theorem load_write_session (key value : Bytes) :
    (Objects.load id).answer (c.write Sessions.space key value) = (Objects.load id).answer c :=
  Backend.answer_getRecord_write_of_space_ne (by decide)

/-- With a live session, an object is put after the session has been used. -/
theorem on_putObject_of_live (hget : (Sessions.get email).answer c = .ok (some session))
    (hlive : Live moment.now key session) (hid : id ≠ "") (hvacant : Vacant c id email)
    (payload : Bytes) :
    (putObject moment email key id payload).on c = (.ok ⟨id, payload, ⟨email⟩⟩,
      (c.write Sessions.space (Bytes.ofText session.email)
        (Record.encode (Sessions.slid moment.now moment.window session))).write Objects.space
          (Bytes.ofText id) (Record.encode (⟨id, payload, ⟨email⟩⟩ : StoredObject))) := by
  have hvalidate := Sessions.atomic_validate moment.now moment.window email key
  rw [putObject_eq, (readOnly_requireField _ _).on_ok (answer_requireField hid c),
    on_bind_ok hvalidate.steady (Sessions.on_validate_of_live hget hlive)]
  apply Vacant.on_put
  unfold Vacant
  rw [load_write_session]
  exact hvacant

/-- With a live session of another user than the owner of the object, nothing is put, although the
session has been used. -/
theorem on_putObject_unauthorized {object : StoredObject}
    (hget : (Sessions.get email).answer c = .ok (some session))
    (hlive : Live moment.now key session) (hid : id ≠ "")
    (hload : (Objects.load id).answer c = .ok (some object)) (howner : object.owner ≠ email)
    (payload : Bytes) :
    (putObject moment email key id payload).on c = (.error (.unauthorized email),
      c.write Sessions.space (Bytes.ofText session.email)
        (Record.encode (Sessions.slid moment.now moment.window session))) := by
  have hvalidate := Sessions.atomic_validate moment.now moment.window email key
  rw [putObject_eq, (readOnly_requireField _ _).on_ok (answer_requireField hid c),
    on_bind_ok hvalidate.steady (Sessions.on_validate_of_live hget hlive), Objects.on_put,
    load_write_session, hload]
  exact if_neg howner

/-- With a live session, the owner of an object gets it. -/
theorem answer_getObject_of_live {object : StoredObject}
    (hget : (Sessions.get email).answer c = .ok (some session)) (hlive : Live moment.now key session)
    (hload : (Objects.load id).answer c = .ok (some object)) (howner : object.owner = email) :
    (getObject moment email key id).answer c = .ok object := by
  have hvalidate := Sessions.atomic_validate moment.now moment.window email key
  rw [answer, getObject_eq,
    on_bind_ok hvalidate.steady (Sessions.on_validate_of_live hget hlive), Objects.on_get,
    load_write_session, hload]
  simp only [if_pos howner]

/-- An object that is put with a live session is there for its owner to get, with the same key and
at the same instant. -/
theorem getObject_of_putObject (hget : (Sessions.get email).answer c = .ok (some session))
    (hlive : Live moment.now key session) (hend : session.expiresAt.notAfter .last = true)
    (hwindow : moment.window.isZero = false) (hid : id ≠ "") (hvacant : Vacant c id email)
    (payload : Bytes) :
    ∃ c', (putObject moment email key id payload).on c = (.ok ⟨id, payload, ⟨email⟩⟩, c') ∧
      (getObject moment email key id).answer c' = .ok ⟨id, payload, ⟨email⟩⟩ := by
  refine ⟨_, on_putObject_of_live hget hlive hid hvacant payload, ?_⟩
  obtain ⟨session', hget', hlive'⟩ := Sessions.live_write hget hlive hend hwindow
  exact answer_getObject_of_live
    ((Backend.answer_getRecord_write_of_space_ne (by decide)).trans hget') hlive'
    (Backend.answer_getRecord_write ((has_write _ _).2 hvacant.has) _) rfl

/-! ### After other operations -/

section After

variable {past : List (Operation × Moment)}

/-- With the key of a live session, an object that is put under a vacant id is there afterwards, and so
is the session. -/
theorem putObject_of_sessionKey (hkey : SessionKey (after past).contents moment.now email key)
    (hid : id ≠ "") (hvacant : Vacant (after past).contents id email) (payload : Bytes) :
    reply past (.putObject email key id payload, moment) = .ok (.object ⟨id, payload, ⟨email⟩⟩) ∧
      (Objects.load id).answer (after ((.putObject email key id payload, moment) :: past)).contents
        = .ok (some ⟨id, payload, ⟨email⟩⟩) ∧
      ∃ session, (Sessions.get email).answer
        (after ((.putObject email key id payload, moment) :: past)).contents = .ok (some session) := by
  obtain ⟨session, hget, hlive⟩ := hkey
  obtain ⟨hreply, hcontents⟩ := step_of_on (.putObject email key id payload) moment rfl
    (on_putObject_of_live hget hlive hid hvacant payload)
  rw [hcontents, ((sound_after past).of_get hget).1]
  refine ⟨hreply, Backend.answer_getRecord_write ((has_write _ _).2 hvacant.has) _,
    Sessions.slid moment.now moment.window session, ?_⟩
  exact (Backend.answer_getRecord_write_of_space_ne (by decide)).trans
    (Backend.answer_getRecord_write (Backend.has_of_answer_getRecord hget) _)

end After

/-- A new service has no objects. -/
theorem load_after_nil (id : String) : (Objects.load id).answer (after []).contents = .ok none := by
  rw [after, run_setup]
  exact Backend.answer_getRecord_eq_none_iff.2
    ⟨(has_initial _).2 (by decide), .inl (value?_initial _ _)⟩

/-! ### Two users and their sessions -/

/-- The key of the session that a user opens at the first instant. -/
def eveKey : String := Credential.issueToken "word" Instant.first.seed

/-- A user who has been registered by the first admin has logged in. -/
def eve : List (Operation × Moment) :=
  [(.login "eve" "word", .first), (.createUser annKey "eve" "word", .first), ann]

/-- The user has put an object. -/
def settled : List (Operation × Moment) := (.putObject "eve" eveKey "note" [1], .first) :: eve

theorem registered_eve : Registered (after eve).contents (newUser .first "eve" "word") := by
  refine (registered_of_createUser createUser_eve).2.after_cons ?_
  exact fun _ hop => by contradiction

theorem sessionKey_eve : SessionKey (after eve).contents .first "eve" eveKey := by
  obtain ⟨hemail, hregistered⟩ := registered_of_createUser createUser_eve
  exact hregistered.sessionKey_login hemail .first (by decide) (by decide)

/-- Neither a registration nor a login stores an object. -/
theorem load_eve (id : String) : (Objects.load id).answer (after eve).contents = .ok none :=
  (answer_getRecord_after_append eve [] (by decide) id).trans (load_after_nil id)

theorem registered_settled : Registered (after settled).contents (newUser .first "eve" "word") :=
  registered_eve.after_cons fun _ hop => by contradiction

theorem load_settled : (Objects.load "note").answer (after settled).contents
    = .ok (some ⟨"note", [1], ⟨"eve"⟩⟩) :=
  (putObject_of_sessionKey sessionKey_eve (by decide) (.inl (load_eve "note")) [1]).2.1

theorem get_settled :
    ∃ session, (Sessions.get "eve").answer (after settled).contents = .ok (some session) :=
  (putObject_of_sessionKey sessionKey_eve (by decide) (.inl (load_eve "note")) [1]).2.2

/-- The key of another user's session. -/
def danKey : String := Credential.issueToken "door" Instant.first.seed

/-- Another user has been registered and has logged in. -/
def joined : List (Operation × Moment) :=
  (.login "dan" "door", .first) :: (.createUser annKey "dan" "door", .first) :: settled

theorem adminKey_settled : AdminKey (after settled).contents annKey :=
  ((adminKey_ann.after_cons (by decide)).after_cons (by decide)).after_cons (by decide)

theorem load_user_settled : (users.load "dan").answer (after settled).contents = .ok none := by
  refine (answer_getRecord_after_append (settled.take 2)
    [(.createUser annKey "eve" "word", .first), ann] (by decide) "dan").trans ?_
  have hfresh := load_ann users (show "eve" ≠ "ann" by decide)
  rw [(createUser_of_adminKey .first (by decide) adminKey_ann hfresh "word").2]
  exact (Backend.answer_getRecord_write_of_key_ne (by decide)).trans (load_ann users (by decide))

theorem get_joined : (Sessions.get "dan").answer (after joined).contents
    = .ok (some (Sessions.opened .first Sessions.defaultWindow "dan" "door")) := by
  have hcreated := createUser_of_adminKey .first (by decide) adminKey_settled load_user_settled "door"
  obtain ⟨hemail, hregistered⟩ := registered_of_createUser hcreated.1
  exact (hregistered.get_login hemail .first).2

theorem load_joined : (Objects.load "note").answer (after joined).contents
    = .ok (some ⟨"note", [1], ⟨"eve"⟩⟩) :=
  (answer_getRecord_after_append (joined.take 2) settled (by decide) "note").trans load_settled

end Service

end AuthVault
