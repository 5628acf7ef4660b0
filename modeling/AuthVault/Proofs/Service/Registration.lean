import AuthVault.Proofs.Service.AdminKeys
import AuthVault.Proofs.Time.Expiry

/-!
# Registered users

From its registration to its deletion the account of a user is stored as it was registered, and the
user can log in with the password and use the session (`durable_of_createUser`), whatever else is
asked of the service without faults.

A registration succeeds only where the email has no account (`createUser_cases`), a deletion that
fails changes nothing, one of another user leaves the account alone (`deleteUser_cases`,
`Erased.differ`), and no other operation writes to the accounts of users: so one step keeps the
account (`Registered.after_cons`).
-/

namespace AuthVault.Service

open AuthVault.Action Contents
open IdentitySpace (users admins)

variable {c : Contents} {past later : List (Operation × Moment)} {step : Operation × Moment}
  {moment : Moment} {email key password : String} {account : Account}

/-! ### Registrations -/

/-- The account of a user registered at an instant. -/
def newUser (now : Instant) (email password : String) : Account :=
  ⟨email, .register password now.seed, none⟩

/-- The record of a user account is stored under its email. -/
def Registered (c : Contents) (account : Account) : Prop :=
  c.value? users.name (Bytes.ofText account.email) = some (Record.encode account)

theorem Registered.load (h : Registered c account) :
    (users.load account.email).answer c = .ok (some account) :=
  Backend.answer_getRecord_of_value? h

/-- A registration by an admin stores the account of an email that has none. -/
theorem on_createUser (moment : Moment) (hemail : email ≠ "") (hadmin : AdminKey c key)
    (hfresh : (users.load email).answer c = .ok none) (password : String) :
    (createUser moment key email password).on c = (.ok (), c.write users.name
      (Bytes.ofText email) (Record.encode (newUser moment.now email password))) := by
  have hcreate := IdentitySpace.on_createSeeded users email password moment.now.seed c
  simp only [hfresh] at hcreate
  rw [createUser, on_forAdmin _ hemail hadmin]
  exact on_bind_ok (IdentitySpace.atomic_createSeeded users email password _).steady hcreate

/-- A registration fails and changes nothing, or stores the account of an email that had none. -/
theorem createUser_cases (hc : Sound c) (moment : Moment) (key email password : String) :
    (∃ e, (createUser moment key email password).on c = (.error e, c)) ∨
      email ≠ "" ∧ (users.load email).answer c = .ok none ∧
        (createUser moment key email password).on c = (.ok (), c.write users.name
          (Bytes.ofText email) (Record.encode (newUser moment.now email password))) := by
  rcases forAdmin_cases (users.createSeeded email password moment.now.seed >>= fun _ => pure ()) c
    email key with herror | ⟨hemail, hadmin⟩
  · exact .inl herror
  obtain ⟨found, hload⟩ := hc.load_account users email
  cases found with
  | none => exact .inr ⟨hemail, hload, on_createUser moment hemail hadmin hload password⟩
  | some found =>
    have hcreate := IdentitySpace.on_createSeeded users email password moment.now.seed c
    simp only [hload] at hcreate
    rw [createUser, on_forAdmin _ hemail hadmin]
    exact .inl ⟨_, on_bind_error
      (IdentitySpace.atomic_createSeeded users email password _).steady hcreate⟩

theorem createUser_of_adminKey (moment : Moment) (hemail : email ≠ "")
    (hadmin : AdminKey (after past).contents key)
    (hfresh : (users.load email).answer (after past).contents = .ok none) (password : String) :
    reply past (.createUser key email password, moment) = .ok .done ∧
      (after ((.createUser key email password, moment) :: past)).contents
        = (after past).contents.write users.name (Bytes.ofText email)
          (Record.encode (newUser moment.now email password)) :=
  step_of_on (.createUser key email password) moment rfl
    (on_createUser moment hemail hadmin hfresh password)

theorem registered_of_createUser
    (h : reply past (.createUser key email password, moment) = .ok .done) : email ≠ "" ∧
      Registered (after ((.createUser key email password, moment) :: past)).contents
        (newUser moment.now email password) := by
  have hc := sound_after past
  rcases createUser_cases hc moment key email password with ⟨e, hon⟩ | ⟨hemail, -, hon⟩
  all_goals
    obtain ⟨hreply, hcontents⟩ := step_of_on (.createUser key email password) moment rfl hon
  · rw [hreply] at h
    contradiction
  · rw [hcontents]
    exact ⟨hemail, value?_write_self (hc.has users.name (by decide)) _⟩

/-- Only the deletion of its user takes an account away, and no operation changes it. -/
theorem Registered.after_cons (h : Registered (after past).contents account)
    (hkept : ∀ proof, step.1 = .deleteUser proof account.email → reply past step ≠ .ok .done) :
    Registered (after (step :: past)).contents account := by
  have hc := sound_after past
  obtain ⟨op, moment⟩ := step
  cases op with
  | createUser key email password =>
    rcases createUser_cases hc moment key email password with ⟨e, hon⟩ | ⟨-, hfresh, hon⟩
    all_goals rw [(step_of_on (.createUser key email password) moment rfl hon).2]
    · exact h
    · refine (value?_write_of_ne ?_).trans h
      rintro ⟨-, hemail⟩
      rw [← Bytes.ofText_inj.1 hemail, h.load] at hfresh
      cases Except.ok.inj hfresh
  | deleteUser proof email =>
    rcases deleteUser_cases (hc.deletable email) moment proof with ⟨e, hon⟩ | ⟨c', hon, herased⟩
    all_goals
      obtain ⟨hreply, hcontents⟩ := step_of_on (.deleteUser proof email) moment rfl hon
      rw [hcontents]
    · exact h
    · refine (herased.differ.value?_eq ?_).trans h
      rintro (⟨-, hemail⟩ | ⟨hname, -⟩ | hname)
      · exact hkept proof (by rw [Bytes.ofText_inj.1 hemail]) hreply
      · exact absurd hname (by decide)
      · exact absurd hname (by decide)
  | _ =>
    refine (value?_after_cons past ?_ _).trans h
    simp only [Operation.spaces]
    decide

/-! ### Sessions of registered users -/

theorem on_login (hc : Sound c) (hemail : email ≠ "") (hpassword : Password c email password)
    (moment : Moment) : (login moment email password).on c =
      (.ok (Credential.issueToken password moment.now.seed), c.write Sessions.space
        (Bytes.ofText email)
        (Record.encode (Sessions.opened moment.now moment.window email password))) := by
  rw [login, (readOnly_requireField _ _).on_ok (answer_requireField hemail c)]
  exact Sessions.on_login (hc.has Sessions.space (by decide))
    (IdentitySpace.answer_checkPassword_eq_ok_iff.2 hpassword)

/-- A session with a window that is not zero is live when it is opened. -/
theorem live_opened (hwindow : moment.window.isZero = false)
    (hnow : Instant.last.notAfter moment.now = false) :
    Sessions.Live moment.now (Credential.issueToken password moment.now.seed)
      (Sessions.opened moment.now moment.window email password) :=
  ⟨rfl, Instant.notAfter_expiry hwindow hnow⟩

theorem password_of_registered {now : Instant} (h : Registered c (newUser now email password)) :
    Password c email password :=
  ⟨newUser now email password, h.load, Credential.verify_register password now.seed⟩

/-- The user logs in, which opens a session. -/
theorem Registered.get_login {now : Instant} (hemail : email ≠ "")
    (h : Registered (after past).contents (newUser now email password)) (moment : Moment) :
    reply past (.login email password, moment)
        = .ok (.key (Credential.issueToken password moment.now.seed)) ∧
      (Sessions.get email).answer (after ((.login email password, moment) :: past)).contents
        = .ok (some (Sessions.opened moment.now moment.window email password)) := by
  have hc := sound_after past
  have hlogin := on_login hc hemail (password_of_registered h) moment
  obtain ⟨hreply, hcontents⟩ := step_of_on (.login email password) moment rfl hlogin
  rw [hcontents]
  exact ⟨hreply, Backend.answer_getRecord_write (hc.has Sessions.space (by decide)) _⟩

/-- The session is live where it is not over before it begins. -/
theorem Registered.sessionKey_login {now : Instant} (hemail : email ≠ "")
    (h : Registered (after past).contents (newUser now email password)) (moment : Moment)
    (hwindow : moment.window.isZero = false) (hnow : Instant.last.notAfter moment.now = false) :
    SessionKey (after ((.login email password, moment) :: past)).contents moment.now email
      (Credential.issueToken password moment.now.seed) :=
  ⟨_, (h.get_login hemail moment).2, live_opened hwindow hnow⟩

theorem reply_validate (h : SessionKey (after past).contents moment.now email key) :
    reply past (.validate email key, moment) = .ok .done := by
  obtain ⟨session, hget, hlive⟩ := h
  have hvalidate : (validate moment email key).on (after past).contents = _ :=
    Sessions.on_validate_of_live hget hlive
  exact (step_of_on (.validate email key) moment rfl hvalidate).1

/-! ### From registration to deletion -/

/-- After the registration of a user, and until a deletion of the user succeeds, the record of the
account is the one stored then, the password logs in, and the key of the session is accepted at the
same instant where windows are not zero and the clock has not come to the last instant. -/
theorem durable_of_createUser
    (hcreated : reply past (.createUser key email password, moment) = .ok .done)
    (hkept : ∀ newer step older, later = newer ++ step :: older →
      ∀ proof, step.1 = .deleteUser proof email →
        reply (older ++ (.createUser key email password, moment) :: past) step ≠ .ok .done) :
    Registered (after (later ++ (.createUser key email password, moment) :: past)).contents
      (newUser moment.now email password) ∧
    ∀ m : Moment, ∃ k,
      reply (later ++ (.createUser key email password, moment) :: past) (.login email password, m)
        = .ok (.key k) ∧
      (m.window.isZero = false → Instant.last.notAfter m.now = false →
        ∀ next : Moment, next.now = m.now →
          reply ((.login email password, m) :: (later ++ (.createUser key email password, moment)
            :: past)) (.validate email k, next) = .ok .done) := by
  obtain ⟨hemail, hstored⟩ := registered_of_createUser hcreated
  have hregistered : Registered
      (after (later ++ (.createUser key email password, moment) :: past)).contents
      (newUser moment.now email password) := by
    refine kept_after (P := fun c => Registered c (newUser moment.now email password)) later
      hstored ?_
    intro newer step older hlater h
    exact h.after_cons (hkept newer step older hlater)
  refine ⟨hregistered, fun m => ?_⟩
  refine ⟨_, (hregistered.get_login hemail m).1, fun hwindow hnow next hnext => reply_validate ?_⟩
  rw [hnext]
  exact hregistered.sessionKey_login hemail m hwindow hnow

/-- The first admin registers a user. -/
theorem createUser_eve : reply [ann] (.createUser annKey "eve" "word", ann.2) = .ok .done :=
  (createUser_of_adminKey ann.2 (by decide) adminKey_ann
    (load_ann users (show "eve" ≠ "ann" by decide)) "word").1

theorem durable_of_createUser_eve :
    Registered (after ([(.deleteUser (.adminKey annKey) "bob", ann.2),
        (.createUser annKey "eve" "other", ann.2)] ++
          [(.createUser annKey "eve" "word", ann.2), ann])).contents
      (newUser ann.2.now "eve" "word") := by
  refine (durable_of_createUser createUser_eve ?_).1
  intro newer step older hlater proof hop
  have hstep : step ∈ [(.deleteUser (.adminKey annKey) "bob", ann.2),
      (.createUser annKey "eve" "other", ann.2)] := by
    rw [hlater]
    exact List.mem_append_right _ List.mem_cons_self
  rcases List.mem_cons.1 hstep with rfl | hstep
  · exact absurd (Operation.deleteUser.inj hop).2 (by decide)
  · rw [List.mem_singleton.1 hstep] at hop
    cases hop

end AuthVault.Service
