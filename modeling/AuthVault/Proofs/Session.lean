import AuthVault.Proofs.Account
import AuthVault.Session

/-!
# What the operations on sessions do

An email, its key and its expiry are one record, stored under the email. Logging in, using and
clearing a session are atomic and told by the record found (`on_login`, `on_validate`, `on_clear`);
logging out uses the session first and removes it then (`on_logout`).
-/

namespace AuthVault.Sessions

open AuthVault.Action Contents
open IdentitySpace (users)

variable {c : Contents} {now : Instant} {window : Duration} {email key password : String}
  {session : Session}

theorem readOnly_get (email : String) : (get email).ReadOnly := Backend.readOnly_getRecord _ _

theorem atomic_store (session : Session) : (store session).Atomic := Backend.atomic_put _ _ _

theorem on_store (h : c.Has space) (session : Session) : (store session).on c =
    (.ok (), c.write space (Bytes.ofText session.email) (Record.encode session)) :=
  Backend.on_put h _ _

/-! ### Logging in -/

/-- The session that a login opens. -/
def opened (now : Instant) (window : Duration) (email password : String) : Session :=
  ⟨email, Credential.issueToken password now.seed, now.expiry window⟩

theorem login_eq (now : Instant) (window : Duration) (email password : String) :
    login now window email password = users.checkPassword email password >>= fun _ =>
      store (opened now window email password) >>= fun _ =>
        pure (Credential.issueToken password now.seed) := rfl

theorem atomic_login (now : Instant) (window : Duration) (email password : String) :
    (login now window email password).Atomic := by
  rw [login_eq]
  apply (IdentitySpace.readOnly_checkPassword _ _ _).then
  intro _
  rw [bind_pure_comp]
  exact (atomic_store _).map _

theorem on_login_error {e : AuthError}
    (h : (users.checkPassword email password).answer c = .error e) :
    (login now window email password).on c = (.error e, c) :=
  (IdentitySpace.readOnly_checkPassword _ _ _).on_error h

theorem on_login (hhas : c.Has space) (h : (users.checkPassword email password).answer c = .ok ()) :
    (login now window email password).on c = (.ok (Credential.issueToken password now.seed),
      c.write space (Bytes.ofText email) (Record.encode (opened now window email password))) := by
  rw [login_eq, (IdentitySpace.readOnly_checkPassword _ _ _).on_ok h,
    on_bind_ok (atomic_store _).steady (on_store hhas _)]
  rfl

/-! ### Using a session -/

/-- A session with a new window. -/
def slid (now : Instant) (window : Duration) (session : Session) : Session :=
  { session with expiresAt := now.expiry window }

/-- Uses a session with a key. -/
def use (now : Instant) (window : Duration) (email key : String) (session : Session) :
    Action Unit :=
  if session.key ≠ key then throw (.badToken email)
  else if session.expiresAt.notAfter now then throw (.timedOut email)
  else store (slid now window session)

theorem validate_eq (now : Instant) (window : Duration) (email key : String) :
    validate now window email key = get email >>= fun found =>
      match found with
      | none => throw (.notLoggedIn email)
      | some session => use now window email key session := by
  rfl

theorem atomic_use (now : Instant) (window : Duration) (email key : String) (session : Session) :
    (use now window email key session).Atomic := by
  unfold use
  split
  · exact (readOnly_throw _).atomic
  · split
    · exact (readOnly_throw _).atomic
    · exact atomic_store _

theorem atomic_validate (now : Instant) (window : Duration) (email key : String) :
    (validate now window email key).Atomic := by
  rw [validate_eq]
  apply (readOnly_get email).then
  intro found
  cases found with
  | none => exact (readOnly_throw _).atomic
  | some session => exact atomic_use now window email key session

/-- A session is used exactly with its own key before its expiry; its window is opened anew then. -/
theorem on_validate (c : Contents) : (validate now window email key).on c =
    match (get email).answer c with
    | .error e => (.error e, c)
    | .ok none => (.error (.notLoggedIn email), c)
    | .ok (some session) =>
      if session.key ≠ key then (.error (.badToken email), c)
      else if session.expiresAt.notAfter now then (.error (.timedOut email), c)
      else (.ok (), c.write space (Bytes.ofText session.email)
        (Record.encode (slid now window session))) := by
  rw [validate_eq]
  rcases h : (get email).answer c with e | _ | session
  · rw [(readOnly_get email).on_error h]
  · rw [(readOnly_get email).on_ok h]
    rfl
  · rw [(readOnly_get email).on_ok h]
    have hstore := on_store (Backend.has_of_answer_getRecord h) (slid now window session)
    simp only [use]
    split
    · rfl
    · split
      · rfl
      · exact hstore

theorem answer_validate (c : Contents) : (validate now window email key).answer c =
    match (get email).answer c with
    | .error e => .error e
    | .ok none => .error (.notLoggedIn email)
    | .ok (some session) =>
      if session.key ≠ key then .error (.badToken email)
      else if session.expiresAt.notAfter now then .error (.timedOut email)
      else .ok () := by
  rw [answer, on_validate]
  rcases (get email).answer c with e | _ | session
  · rfl
  · rfl
  · simp only
    split
    · rfl
    · split <;> rfl

/-- A session whose key is given before its expiry. -/
structure Live (now : Instant) (key : String) (session : Session) : Prop where
  key_eq : session.key = key
  lasts : session.expiresAt.notAfter now = false

theorem on_validate_of_live (h : (get email).answer c = .ok (some session))
    (hlive : Live now key session) : (validate now window email key).on c =
      (.ok (), c.write space (Bytes.ofText session.email)
        (Record.encode (slid now window session))) := by
  rw [on_validate, h]
  simp only [hlive.key_eq, hlive.lasts, ne_eq, not_true_eq_false, if_false, Bool.false_eq_true]

/-- What does not succeed without faults leaves everything as it is; what does had a live session.
-/
theorem validate_cases (now : Instant) (window : Duration) (email key : String) (c : Contents) :
    (∃ e, (validate now window email key).on c = (.error e, c)) ∨
      ∃ session, (get email).answer c = .ok (some session) ∧ Live now key session := by
  rw [on_validate]
  rcases h : (get email).answer c with e | _ | session
  · exact .inl ⟨e, rfl⟩
  · exact .inl ⟨_, rfl⟩
  · by_cases hkey : session.key = key
    · cases hlasts : session.expiresAt.notAfter now with
      | true =>
        refine .inl ⟨.timedOut email, ?_⟩
        simp only [hkey, hlasts, ne_eq, not_true_eq_false, if_false, if_true]
      | false => exact .inr ⟨session, rfl, hkey, hlasts⟩
    · exact .inl ⟨.badToken email, by simp only [hkey, ne_eq, not_false_eq_true, if_true]⟩

/-! ### Closing a session -/

theorem logout_eq (now : Instant) (window : Duration) (email key : String) :
    logout now window email key = validate now window email key >>= fun _ =>
      Backend.delete space (Bytes.ofText email) := rfl

theorem steady_logout (now : Instant) (window : Duration) (email key : String) :
    (logout now window email key).Steady :=
  (atomic_validate now window email key).steady.bind fun _ => (Backend.atomic_delete _ _).steady

theorem on_logout_error {e : AuthError} (h : (validate now window email key).on c = (.error e, c)) :
    (logout now window email key).on c = (.error e, c) :=
  on_bind_error (atomic_validate now window email key).steady h

/-- A live session that carries its email is removed. -/
theorem on_logout_of_live (h : (get email).answer c = .ok (some session))
    (hlive : Live now key session) (hemail : session.email = email) :
    (logout now window email key).on c = (.ok (), c.remove space (Bytes.ofText email)) := by
  have hhas := Backend.has_of_answer_getRecord h
  rw [logout_eq, on_bind_ok (atomic_validate now window email key).steady
    (on_validate_of_live h hlive),
    Backend.on_delete ((has_write _ _).2 hhas), hemail, remove_write]

/-- Logging out succeeds or fails as a use does. -/
theorem answer_logout (now : Instant) (window : Duration) (email key : String) (c : Contents) :
    (logout now window email key).answer c = (validate now window email key).answer c := by
  rcases validate_cases now window email key c with ⟨e, herror⟩ | ⟨session, hget, hlive⟩
  · rw [answer, answer, on_logout_error herror, herror]
  · have hvalidate : (validate now window email key).on c = _ := on_validate_of_live hget hlive
    rw [answer, answer, logout_eq, on_bind_ok (atomic_validate now window email key).steady
      hvalidate,
      Backend.on_delete ((has_write _ _).2 (Backend.has_of_answer_getRecord hget)), hvalidate]

theorem clear_eq (email : String) : clear email = get email >>= fun found =>
    match found with
    | none => pure false
    | some _ => Backend.delete space (Bytes.ofText email) >>= fun _ => pure true := by
  unfold clear
  congr 1
  funext found
  cases found <;> rfl

theorem atomic_clear (email : String) : (clear email).Atomic := by
  rw [clear_eq]
  apply (readOnly_get email).then
  intro found
  cases found with
  | none => exact (readOnly_pure _).atomic
  | some session =>
    simp only [bind_pure_comp]
    exact (Backend.atomic_delete _ _).map _

theorem internal_clear (email : String) : (clear email).Internal := by
  rw [clear_eq]
  apply (Backend.internal_getRecord _ _).bind
  intro found
  cases found with
  | none => exact internal_pure _
  | some session => exact (internal_perform _ _ _).bind fun _ => internal_pure _

/-- A session is cleared exactly if there is one. -/
theorem on_clear (email : String) (c : Contents) : (clear email).on c =
    match (get email).answer c with
    | .error e => (.error e, c)
    | .ok none => (.ok false, c)
    | .ok (some _) => (.ok true, c.remove space (Bytes.ofText email)) := by
  rw [clear_eq]
  rcases h : (get email).answer c with e | _ | session
  · rw [(readOnly_get email).on_error h]
  · rw [(readOnly_get email).on_ok h]
    rfl
  · rw [(readOnly_get email).on_ok h]
    exact on_bind_ok (Backend.atomic_delete _ _).steady
      (Backend.on_delete (Backend.has_of_answer_getRecord h) _)

/-- The session of an email is gone, and nothing else is. -/
structure Cleared (email : String) (c c' : Contents) : Prop where
  answer_get : (get email).answer c' = .ok none
  contents : c' = c ∨ c' = c.remove space (Bytes.ofText email)

theorem Cleared.differ {P : String → Bytes → Prop} (h : Cleared email c c')
    (hP : P space (Bytes.ofText email)) : Differ P c c' := by
  rcases h.contents with rfl | rfl
  · exact .refl _
  · exact .remove hP

theorem Cleared.value?_of_some (h : Cleared email c c') {s : String} {k value : Bytes}
    (hvalue : c'.value? s k = some value) : c.value? s k = some value := by
  rcases h.contents with rfl | rfl
  · exact hvalue
  · exact value?_of_remove hvalue

theorem cleared_of_ok {b : Backend} {existed : Bool} (h : ((clear email).run b).1 = .ok existed) :
    Cleared email b.contents ((clear email).run b).2.contents := by
  have hon := (atomic_clear email).on_of_ok h
  rw [on_clear] at hon
  rcases hget : (get email).answer b.contents with e | _ | session
  all_goals rw [hget] at hon
  · cases congrArg Prod.fst hon
  · rw [show ((clear email).run b).2.contents = b.contents from (congrArg Prod.snd hon).symm]
    exact ⟨hget, .inl rfl⟩
  · rw [show ((clear email).run b).2.contents = b.contents.remove space (Bytes.ofText email) from
      (congrArg Prod.snd hon).symm]
    exact ⟨Backend.answer_getRecord_remove (Backend.has_of_answer_getRecord hget), .inr rfl⟩

theorem on_clear_of_readable {found : Option Session} (h : (get email).answer c = .ok found) :
    ∃ existed c', (clear email).on c = (.ok existed, c') ∧ Cleared email c c' := by
  have hclear := on_clear email c
  rw [h] at hclear
  cases found with
  | none => exact ⟨false, c, hclear, h, .inl rfl⟩
  | some session =>
    have hhas := Backend.has_of_answer_getRecord h
    exact ⟨true, _, hclear, Backend.answer_getRecord_remove hhas, .inr rfl⟩

/-! ### Changes in a backend with faults -/

section Faults

variable {P : String → Bytes → Prop} {b : Backend}

theorem differ_login (h : (users.checkPassword email password).answer b.contents = .ok () →
    P space (Bytes.ofText email)) :
    Differ P b.contents ((login now window email password).run b).2.contents := by
  apply differ_bind ((IdentitySpace.readOnly_checkPassword _ _ _).differ b)
  intro _ hok
  have hcheck := (IdentitySpace.readOnly_checkPassword _ _ _).answer_of_ok hok
  exact differ_bind (Backend.differ_put (h hcheck) _ _) fun _ _ => .refl _

theorem differ_validate (h : ∀ session, (get email).answer b.contents = .ok (some session) →
    Live now key session → P space (Bytes.ofText session.email)) :
    Differ P b.contents ((validate now window email key).run b).2.contents := by
  refine (atomic_validate now window email key).differ ?_
  rcases validate_cases now window email key b.contents with ⟨e, he⟩ | ⟨session, hget, hlive⟩
  · rw [he]
    exact .refl _
  · rw [on_validate_of_live hget hlive]
    exact .write (h session hget hlive) _

theorem validate_of_ok (h : ((validate now window email key).run b).1 = .ok ()) :
    ∃ session, (get email).answer b.contents = .ok (some session) ∧ Live now key session := by
  have hon := (atomic_validate now window email key).on_of_ok h
  rcases validate_cases now window email key b.contents with ⟨e, he⟩ | hlive
  · rw [he] at hon
    cases congrArg Prod.fst hon
  · exact hlive

theorem differ_logout (hemail : ∀ session, (get email).answer b.contents = .ok (some session) →
      session.email = email)
    (h : ∀ session, (get email).answer b.contents = .ok (some session) → Live now key session →
      P space (Bytes.ofText email)) :
    Differ P b.contents ((logout now window email key).run b).2.contents := by
  refine differ_bind (differ_validate fun session hget hlive => ?_) fun _ hok => ?_
  · rw [hemail session hget]
    exact h session hget hlive
  · obtain ⟨session, hget, hlive⟩ := validate_of_ok hok
    exact Backend.differ_delete (h session hget hlive) _

theorem differ_clear (h : P space (Bytes.ofText email)) (b : Backend) :
    Differ P b.contents ((clear email).run b).2.contents := by
  refine (atomic_clear email).differ ?_
  rw [on_clear]
  rcases (get email).answer b.contents with e | _ | session
  · exact .refl _
  · exact .refl _
  · exact .remove h

end Faults

end AuthVault.Sessions
