import AuthVault.Proofs.Service.Integrity

/-!
# Operations that fail only by refusing

Where everything is in order and no fault is armed, the failures of an operation are refusals: they
come from what was asked for, not from the backend or from a record that cannot be read
(`Sound.refuses_run`). Every namespace is there for each primitive call, and every record found can
be read; a part of an operation that comes after a change finds contents in order again, or is told
by the change itself (`on_cascade`, `Admins.on_delete`).
-/

namespace AuthVault

/-- Whether a failure comes from what was asked for. -/
def AuthError.isRefusal : AuthError → Bool
  | codec _ | backend _ => false
  | _ => true

theorem AuthError.isRefusal_iff {e : AuthError} : e.isRefusal = true ↔ e.status < 500 := by
  cases e <;> simp [isRefusal, status]

namespace Action

variable {α β : Type} {x : Action α} {c : Contents}

/-- Where the action fails on contents, without a fault, it refuses what it was asked for. -/
def Refuses (x : Action α) (c : Contents) : Prop :=
  ∀ e, x.answer c = .error e → e.isRefusal = true

theorem refuses_of_ok {a : α} (h : x.answer c = .ok a) : x.Refuses c := by
  intro e herror
  rw [h] at herror
  contradiction

theorem refuses_pure (a : α) (c : Contents) : (pure a : Action α).Refuses c := refuses_of_ok rfl

theorem refuses_throw {e : AuthError} (h : e.isRefusal = true) (c : Contents) :
    (throw e : Action α).Refuses c := by
  intro e' herror
  exact Except.error.inj herror ▸ h

theorem Refuses.bind {f : α → Action β} (h : x.Refuses c) (hx : x.Steady)
    (hf : ∀ a c', x.on c = (.ok a, c') → (f a).Refuses c') : (x >>= f).Refuses c := by
  intro e herror
  cases hon : x.on c with
  | mk r c' =>
    cases r with
    | error e' =>
      rw [answer, on_bind_error hx hon] at herror
      exact Except.error.inj herror ▸ h e' (by rw [answer, hon])
    | ok a =>
      rw [answer, on_bind_ok hx hon] at herror
      exact hf a c' hon e herror

theorem Refuses.then {f : α → Action β} (h : x.Refuses c) (hx : x.ReadOnly)
    (hf : ∀ a, x.answer c = .ok a → (f a).Refuses c) : (x >>= f).Refuses c := by
  refine h.bind hx.steady fun a c' hon => ?_
  rw [hx.on_eq] at hon
  obtain ⟨hanswer, rfl⟩ := Prod.mk.inj hon
  exact hf a hanswer

theorem Refuses.map (h : x.Refuses c) (g : α → β) : (g <$> x).Refuses c := by
  intro e herror
  rw [answer_map] at herror
  cases hanswer : x.answer c with
  | ok a => rw [hanswer] at herror; contradiction
  | error e' =>
    rw [hanswer] at herror
    exact Except.error.inj herror ▸ h e' hanswer

theorem Refuses.mapError (h : x.Refuses c) (hx : x.Steady) {f : AuthError → AuthError}
    (hf : ∀ e, e.isRefusal = true → (f e).isRefusal = true) : (x.mapError f).Refuses c := by
  intro e herror
  rw [answer, on_mapError hx] at herror
  cases hanswer : (x.on c).1 with
  | ok a => rw [hanswer] at herror; contradiction
  | error e' =>
    rw [hanswer] at herror
    exact Except.error.inj herror ▸ hf e' (h e' hanswer)

end Action

theorem Admins.isRefusal_hideAccount {e e' : AuthError} (h : e.isRefusal = true)
    (h' : e'.isRefusal = true) : (hideAccount e e').isRefusal = true := by
  cases e' with
  | notFound _ => exact h
  | _ => exact h'

namespace Service

open AuthVault.Action Contents
open IdentitySpace (users admins)

variable {c : Contents} {email : String} {moment : Moment}

theorem refuses_requireField (name value : String) (c : Contents) :
    (requireField name value).Refuses c := by
  unfold requireField
  split
  · exact refuses_throw rfl c
  · exact refuses_pure () c

namespace Sound

/-! ### Accounts -/

theorem refuses_get (h : Sound c) (identities : IdentitySpace) (email : String) :
    (identities.get email).Refuses c := by
  intro e herror
  obtain ⟨found, hload⟩ := h.load_account identities email
  rw [IdentitySpace.answer_get, hload] at herror
  cases found with
  | none => exact Except.error.inj herror ▸ rfl
  | some account => contradiction

theorem refuses_checkPassword (h : Sound c) (identities : IdentitySpace)
    (email password : String) : (identities.checkPassword email password).Refuses c := by
  apply (h.refuses_get identities email).then (IdentitySpace.readOnly_get identities email)
  intro account _
  cases account.credential.verify password with
  | true => exact refuses_pure () c
  | false => exact refuses_throw rfl c

theorem refuses_authenticate (h : Sound c) (key : String) : (Admins.authenticate key).Refuses c := by
  have hunknown : ∀ {α : Type}, (throw (Admins.noSuchKey key) : Action α).Refuses c :=
    refuses_throw rfl c
  unfold Admins.authenticate
  by_cases hkey : key = ""
  · rw [if_pos hkey]
    exact hunknown
  rw [if_neg hkey]
  apply (refuses_of_ok (by rw [answer, Backend.on_get (h.has _ (by decide))])).then
    (Backend.readOnly_get _ _)
  intro owner _
  cases owner with
  | none => exact hunknown
  | some owner =>
    cases htext : Bytes.text? owner with
    | none =>
      simp only [htext]
      exact hunknown
    | some email =>
      simp only [htext]
      have hhide : ∀ e, e.isRefusal = true →
          (Admins.hideAccount (Admins.noSuchKey key) e).isRefusal = true :=
        fun _ => Admins.isRefusal_hideAccount rfl
      have hget := (h.refuses_get admins email).mapError
        (IdentitySpace.readOnly_get admins email).steady hhide
      apply hget.then ((IdentitySpace.readOnly_get admins email).mapError fun _ => rfl)
      intro account _
      split
      · exact hunknown
      · exact refuses_pure account c

theorem refuses_checkProof (h : Sound c) (proof : DeletionProof) (email : String) :
    (checkProof proof email).Refuses c := by
  cases proof with
  | adminKey key =>
    exact (h.refuses_authenticate key).then (Admins.readOnly_authenticate key) fun _ _ =>
      refuses_pure () c
  | password password => exact h.refuses_checkPassword users email password

theorem refuses_create (h : Sound c) (now : Instant) (email password : String) :
    (Admins.create now email password).Refuses c := by
  intro e herror
  obtain ⟨found, hload⟩ := h.load_account admins email
  rw [answer, Admins.on_create (h.has _ (by decide)), hload] at herror
  cases found with
  | none => contradiction
  | some account => exact Except.error.inj herror ▸ rfl

theorem refuses_createSeeded (h : Sound c) (email password seed : String) :
    (users.createSeeded email password seed).Refuses c := by
  intro e herror
  obtain ⟨found, hload⟩ := h.load_account users email
  rw [answer, IdentitySpace.on_createSeeded, hload] at herror
  cases found with
  | none => contradiction
  | some account => exact Except.error.inj herror ▸ rfl

theorem refuses_bootstrapAdmin (h : Sound c) (email password : String) :
    (bootstrapAdmin moment email password).Refuses c := by
  intro e herror
  obtain ⟨found, hload⟩ := h.load_account admins email
  rw [answer, bootstrapAdmin, on_andThen (Admins.readOnly_ofEmail email).steady,
    (Admins.readOnly_ofEmail email).on_eq, Admins.answer_ofEmail, hload] at herror
  cases found with
  | none => exact (h.refuses_create moment.now email password).map some e herror
  | some account => contradiction

theorem refuses_deleteAdmin (h : Sound c) (key : String) : (Admins.delete key).Refuses c := by
  intro e herror
  cases hauth : (Admins.authenticate key).answer c with
  | error e' =>
    rw [answer, Admins.on_delete_error hauth] at herror
    exact Except.error.inj herror ▸ h.refuses_authenticate key e' hauth
  | ok account =>
    obtain ⟨-, email, -, -, hload⟩ := Admins.answer_authenticate_eq_ok_iff.1 hauth
    rw [answer, Admins.on_delete hauth ((h.email_of_load hload).symm ▸ hload)] at herror
    contradiction

theorem refuses_deleteUser (h : Sound c) (proof : DeletionProof) (email : String) :
    (deleteUser moment proof email).Refuses c := by
  rw [deleteUser_eq]
  apply (refuses_requireField "email" email c).then (readOnly_requireField _ _)
  intro _ _
  apply (h.refuses_checkProof proof email).then (readOnly_checkProof proof email)
  intro _ _ e herror
  obtain ⟨found, hload⟩ := h.load_account users email
  cases found with
  | none =>
    have haccount := IdentitySpace.on_delete users email c
    rw [hload] at haccount
    rw [cascade, answer, on_bind_error (IdentitySpace.atomic_delete users email).steady haccount]
      at herror
    exact Except.error.inj herror ▸ rfl
  | some account =>
    obtain ⟨c', hcascade, -⟩ := on_cascade hload ⟨h.get_session email, h.readable⟩
    rw [answer, hcascade] at herror
    contradiction

/-! ### Sessions and objects -/

theorem refuses_login (h : Sound c) (email password : String) :
    (login moment email password).Refuses c := by
  apply (refuses_requireField "email" email c).then (readOnly_requireField _ _)
  intro _ _ e herror
  cases hcheck : (users.checkPassword email password).answer c with
  | error e' =>
    rw [answer, Sessions.on_login_error hcheck] at herror
    exact Except.error.inj herror ▸ h.refuses_checkPassword users email password e' hcheck
  | ok _ =>
    rw [answer, Sessions.on_login (h.has _ (by decide)) hcheck] at herror
    contradiction

theorem refuses_validate (h : Sound c) (email key : String) :
    (validate moment email key).Refuses c := by
  intro e herror
  obtain ⟨found, hget⟩ := h.get_session email
  rw [validate, Sessions.answer_validate, hget] at herror
  cases found with
  | none => exact Except.error.inj herror ▸ rfl
  | some session =>
    simp only at herror
    split at herror
    · exact Except.error.inj herror ▸ rfl
    · split at herror
      · exact Except.error.inj herror ▸ rfl
      · contradiction

/-- What is done for the user of a session finds contents in order. -/
theorem refuses_gated {α : Type} {x : Action α} (h : Sound c) (email key : String)
    (hx : ∀ c', Sound c' → x.Refuses c') :
    (validate moment email key >>= fun _ => x).Refuses c := by
  apply (h.refuses_validate email key).bind
    (Sessions.atomic_validate moment.now moment.window email key).steady
  intro _ c' hon
  rw [show c' = ((validate moment email key).on c).2 from (congrArg Prod.snd hon).symm]
  exact hx _ (keeps_validate email key c h)

/-- A look-up does not fail, so what comes after it decides. -/
theorem refuses_forOwner {α : Type} (h : Sound c) {id caller : String} {absent : Action α}
    {present : StoredObject → Action α} (habsent : absent.Refuses c)
    (hpresent : ∀ object, (present object).Refuses c) :
    (Objects.load id >>= Objects.forOwner caller absent present).Refuses c := by
  obtain ⟨found, hload⟩ := h.readable id
  apply (refuses_of_ok hload).then (Objects.readOnly_load id)
  intro found _
  cases found with
  | none => exact habsent
  | some object =>
    rw [Objects.forOwner]
    split
    · exact hpresent object
    · exact refuses_throw rfl c

theorem refuses_put (h : Sound c) (id : String) (payload : Bytes) (caller : String) :
    (Objects.put id payload caller).Refuses c := by
  have hstore : ∀ object, (Objects.store object).Refuses c := fun object =>
    refuses_of_ok (congrArg Prod.fst (Objects.on_store (h.has _ (by decide)) object))
  rw [Objects.put_eq]
  exact h.refuses_forOwner (hstore _) fun _ => hstore _

theorem refuses_getObject (h : Sound c) (id caller : String) :
    (Objects.get id caller).Refuses c := by
  rw [Objects.get_eq]
  exact h.refuses_forOwner (refuses_throw rfl c) fun object => refuses_pure object c

theorem refuses_delete (h : Sound c) (id caller : String) :
    (Objects.delete id caller).Refuses c := by
  rw [Objects.delete_eq]
  refine h.refuses_forOwner (refuses_pure () c) fun _ => refuses_of_ok (a := ()) ?_
  rw [answer, Backend.on_delete (h.has _ (by decide))]

theorem refuses_logout (h : Sound c) (email key : String) :
    (logout moment email key).Refuses c := by
  refine h.refuses_gated email key fun c' hc' => refuses_of_ok (a := ()) ?_
  rw [answer, Backend.on_delete (hc'.has _ (by decide))]

/-- Where everything is in order, an operation fails only by refusing. -/
theorem refuses_run (h : Sound c) (op : Operation) (moment : Moment) :
    (op.run moment).Refuses c := by
  cases op with
  | bootstrapAdmin email password => exact (h.refuses_bootstrapAdmin email password).map _
  | checkAdmin key => exact (h.refuses_authenticate key).map _
  | createAdmin key email password =>
    refine Refuses.map
      ((refuses_requireField _ _ c).then (readOnly_requireField _ _) fun _ _ => ?_) _
    exact (h.refuses_authenticate key).then (Admins.readOnly_authenticate key) fun _ _ =>
      h.refuses_create moment.now email password
  | deleteAdmin key => exact (h.refuses_deleteAdmin key).map _
  | createUser key email password =>
    refine Refuses.map
      ((refuses_requireField _ _ c).then (readOnly_requireField _ _) fun _ _ => ?_) _
    refine (h.refuses_authenticate key).then (Admins.readOnly_authenticate key) fun _ _ => ?_
    exact (h.refuses_createSeeded email password moment.now.seed).map fun _ => ()
  | deleteUser proof email => exact (h.refuses_deleteUser proof email).map _
  | login email password => exact (h.refuses_login email password).map _
  | validate email key => exact (h.refuses_validate email key).map _
  | logout email key => exact (h.refuses_logout email key).map _
  | putObject email key id payload =>
    refine Refuses.map
      ((refuses_requireField _ _ c).then (readOnly_requireField _ _) fun _ _ => ?_) _
    exact h.refuses_gated email key fun c' hc' => hc'.refuses_put id payload email
  | getObject email key id =>
    exact Refuses.map (h.refuses_gated email key fun c' hc' => hc'.refuses_getObject id email) _
  | deleteObject email key id =>
    exact Refuses.map (h.refuses_gated email key fun c' hc' => hc'.refuses_delete id email) _

end Sound

end Service

end AuthVault
