import AuthVault.Proofs.Service.Deletion

/-!
# Integrity over whole runs

In whatever state a service gets by its operations, while no fault is armed, its five namespaces
exist and every entry is in order (`Valid`): accounts, sessions and objects can be read and are
stored under the email or the id that they carry, sessions and objects belong to users with an
account, and the index leads from a key to an admin who carries it (`sound_runAll`). So it is in the
beginning (`sound_initial`), and each operation keeps it so (`sound_run`).

An operation changes one entry at a time, and a new entry is in order for what has been checked
before (`Sound.write`): a session is stored for a user whose password has just been verified, or in
place of a session of the same user; an object for a user with a session. Two operations break the
order on their way and restore it at their end: deletions of users (`Sound.erased`) and of admins
(`Sound.remove_admin`), which remove an account before what refers to it.
-/

namespace AuthVault.Service

open AuthVault.Action Contents
open IdentitySpace (users admins)

variable {c c' : Contents} {space : String} {key value : Bytes} {email : String}

/-- An email with a user account. -/
def HasUser (c : Contents) (email : String) : Prop :=
  ∃ value, c.value? users.name (Bytes.ofText email) = some value

/-- An entry is in order. -/
structure Valid (c : Contents) (space : String) (key value : Bytes) : Prop where
  account : ∀ identities : IdentitySpace, space = identities.name → ∃ account : Account,
    value ≠ [] ∧ Record.decode value = .ok account ∧ key = Bytes.ofText account.email
  session : space = Sessions.space → ∃ session : Session,
    value ≠ [] ∧ Record.decode value = .ok session ∧ key = Bytes.ofText session.email ∧
      HasUser c session.email
  object : space = Objects.space → ∃ object : StoredObject,
    value ≠ [] ∧ Record.decode value = .ok object ∧ key = Bytes.ofText object.id ∧
      HasUser c object.owner
  adminKey : space = Admins.keySpace → ∃ email account k,
    value = Bytes.ofText email ∧ (admins.load email).answer c = .ok (some account) ∧
      account.key = some k ∧ key = Bytes.ofText k

/-- All namespaces exist, and every entry is in order. -/
structure Sound (c : Contents) : Prop where
  has : ∀ s ∈ namespaces, c.Has s
  valid : ∀ s k v, c.value? s k = some v → Valid c s k v

theorem sound_initial : Sound initial := by
  refine ⟨fun s hs => (has_initial s).2 hs, fun s k v hv => ?_⟩
  rw [value?_initial] at hv
  contradiction

/-- An entry stays in order where users keep their accounts, and the index leads as before. -/
theorem Valid.mono (h : Valid c space key value) (husers : ∀ e, HasUser c e → HasUser c' e)
    (hadmins : ∀ e account k, space = Admins.keySpace → key = Bytes.ofText k →
      account.key = some k → (admins.load e).answer c = .ok (some account) →
        (admins.load e).answer c' = .ok (some account)) : Valid c' space key value := by
  refine ⟨h.account, fun hs => ?_, fun hs => ?_, fun hs => ?_⟩
  · obtain ⟨session, hne, hdecode, hkey, huser⟩ := h.session hs
    exact ⟨session, hne, hdecode, hkey, husers _ huser⟩
  · obtain ⟨object, hne, hdecode, hkey, huser⟩ := h.object hs
    exact ⟨object, hne, hdecode, hkey, husers _ huser⟩
  · obtain ⟨e, account, k, hvalue, hload, hkey⟩ := h.adminKey hs
    exact ⟨e, account, k, hvalue, hadmins e account k hs hkey.2 hkey.1 hload, hkey⟩

namespace Sound

/-! ### What is found in order -/

theorem load_account (h : Sound c) (identities : IdentitySpace) (email : String) :
    ∃ found, (identities.load email).answer c = .ok found := by
  apply Backend.exists_answer_getRecord (h.has _ (by cases identities <;> decide))
  intro v hv
  obtain ⟨account, hne, hdecode, -⟩ := (h.valid _ _ v hv).account identities rfl
  exact ⟨account, hne, hdecode⟩

theorem get_session (h : Sound c) (email : String) :
    ∃ found, (Sessions.get email).answer c = .ok found := by
  apply Backend.exists_answer_getRecord (h.has _ (by decide))
  intro v hv
  obtain ⟨session, hne, hdecode, -⟩ := (h.valid _ _ v hv).session rfl
  exact ⟨session, hne, hdecode⟩

theorem readable (h : Sound c) : Objects.Readable c := by
  refine fun id => Backend.exists_answer_getRecord (h.has _ (by decide)) fun v hv => ?_
  obtain ⟨object, hne, hdecode, -⟩ := (h.valid _ _ v hv).object rfl
  exact ⟨object, hne, hdecode⟩

theorem email_of_load (h : Sound c) {identities : IdentitySpace} {account : Account}
    (hload : (identities.load email).answer c = .ok (some account)) : account.email = email := by
  obtain ⟨v, hv, -, hdecode⟩ := Backend.answer_getRecord_eq_some_iff.1 hload
  obtain ⟨account', -, hdecode', hkey⟩ := (h.valid _ _ v hv).account identities rfl
  rw [hdecode] at hdecode'
  rw [Except.ok.inj hdecode', Bytes.ofText_inj.1 hkey]

theorem of_get (h : Sound c) {session : Session}
    (hget : (Sessions.get email).answer c = .ok (some session)) :
    session.email = email ∧ HasUser c email := by
  obtain ⟨v, hv, -, hdecode⟩ := Backend.answer_getRecord_eq_some_iff.1 hget
  obtain ⟨session', -, hdecode', hkey, huser⟩ := (h.valid _ _ v hv).session rfl
  rw [hdecode] at hdecode'
  rw [Except.ok.inj hdecode', Bytes.ofText_inj.1 hkey]
  exact ⟨rfl, huser⟩

theorem of_load {id : String} (h : Sound c) {object : StoredObject}
    (hload : (Objects.load id).answer c = .ok (some object)) : HasUser c object.owner := by
  obtain ⟨v, hv, -, hdecode⟩ := Backend.answer_getRecord_eq_some_iff.1 hload
  obtain ⟨object', -, hdecode', -, huser⟩ := (h.valid _ _ v hv).object rfl
  rw [hdecode] at hdecode'
  rw [Except.ok.inj hdecode']
  exact huser

end Sound

/-! ### New entries -/

theorem valid_account (c : Contents) (identities : IdentitySpace) (account : Account) :
    Valid c identities.name (Bytes.ofText account.email) (Record.encode account) := by
  refine ⟨fun _ _ => ⟨account, LawfulRecord.encode_ne_nil _, LawfulRecord.decode_encode _, rfl⟩,
    fun hs => ?_, fun hs => ?_, fun hs => ?_⟩
  all_goals cases identities <;> exact absurd hs (by decide)

theorem valid_session (session : Session) (huser : HasUser c session.email) :
    Valid c Sessions.space (Bytes.ofText session.email) (Record.encode session) := by
  refine ⟨fun identities hs => ?_, fun _ => ⟨session, LawfulRecord.encode_ne_nil _,
    LawfulRecord.decode_encode _, rfl, huser⟩, fun hs => ?_, fun hs => ?_⟩
  · cases identities <;> exact absurd hs (by decide)
  all_goals exact absurd hs (by decide)

theorem valid_object (object : StoredObject) (huser : HasUser c object.owner) :
    Valid c Objects.space (Bytes.ofText object.id) (Record.encode object) := by
  refine ⟨fun identities hs => ?_, fun hs => ?_, fun _ => ⟨object, LawfulRecord.encode_ne_nil _,
    LawfulRecord.decode_encode _, rfl, huser⟩, fun hs => ?_⟩
  · cases identities <;> exact absurd hs (by decide)
  all_goals exact absurd hs (by decide)

theorem valid_adminKey (account : Account) {k : String}
    (hload : (admins.load email).answer c = .ok (some account)) (hkey : account.key = some k) :
    Valid c Admins.keySpace (Bytes.ofText k) (Bytes.ofText email) := by
  refine ⟨fun identities hs => ?_, fun hs => ?_, fun hs => ?_,
    fun _ => ⟨email, account, k, rfl, hload, hkey, rfl⟩⟩
  · cases identities <;> exact absurd hs (by decide)
  all_goals exact absurd hs (by decide)

theorem HasUser.write (h : HasUser c email) : HasUser (c.write space key value) email := by
  obtain ⟨v, hv⟩ := h
  by_cases hs : users.name = space ∧ Bytes.ofText email = key
  · obtain ⟨rfl, rfl⟩ := hs
    exact ⟨value, value?_write_self (has_of_value? hv) value⟩
  · exact ⟨v, (value?_write_of_ne hs).trans hv⟩

theorem hasUser_of_load {account : Account} (h : (users.load email).answer c = .ok (some account)) :
    HasUser c email := by
  obtain ⟨v, hv, -⟩ := Backend.answer_getRecord_eq_some_iff.1 h
  exact ⟨v, hv⟩

namespace Sound

/-- A new entry that is in order leaves everything so, unless it takes an account away. -/
theorem write (h : Sound c) (hs : space ∈ namespaces)
    (hfresh : ∀ e, space = admins.name → key = Bytes.ofText e → (admins.load e).answer c = .ok none)
    (hvalid : Valid (c.write space key value) space key value) :
    Sound (c.write space key value) := by
  refine ⟨fun s hs => (has_write value s).2 (h.has s hs), fun s k v hv => ?_⟩
  by_cases hsk : s = space ∧ k = key
  · obtain ⟨rfl, rfl⟩ := hsk
    rw [value?_write_self (h.has s hs)] at hv
    obtain rfl := Option.some.inj hv
    exact hvalid
  · rw [value?_write_of_ne hsk] at hv
    apply (h.valid s k v hv).mono (fun e he => he.write)
    intro e account _ _ _ _ hload
    refine (Backend.answer_getRecord_write_of_ne ?_).trans hload
    rintro ⟨hname, hkey⟩
    have hnone := hfresh e hname.symm hkey.symm
    rw [hload] at hnone
    cases hnone

/-- What is not an account may be removed. -/
theorem remove (h : Sound c) (hs : ∀ identities : IdentitySpace, identities.name ≠ space) :
    Sound (c.remove space key) := by
  refine ⟨fun s hs => (has_remove s).2 (h.has s hs), fun s k v hv => ?_⟩
  have hother : ∀ (identities : IdentitySpace) (k : Bytes), ¬ (identities.name = space ∧ k = key) :=
    fun identities _ hname => hs identities hname.1
  apply (h.valid s k v (value?_of_remove hv)).mono
  · rintro e ⟨v, hv⟩
    exact ⟨v, (value?_remove_of_ne (hother users _)).trans hv⟩
  · intro e account _ _ _ _ hload
    exact (Backend.answer_getRecord_remove_of_ne (hother admins _)).trans hload

/-- What a deletion of a user leaves is in order: nothing refers to the user. -/
theorem erased (h : Sound c) (herased : Erased email c c') : Sound c' := by
  refine ⟨fun s hs => (herased.differ.has_iff s).2 (h.has s hs), fun s k v hv => ?_⟩
  have hvalid := h.valid s k v (herased.value?_of_some hv)
  have huser : ∀ {e}, e ≠ email → HasUser c e → HasUser c' e := by
    rintro e hne ⟨v, hv⟩
    refine ⟨v, (herased.differ.value?_eq ?_).trans hv⟩
    rintro (⟨-, hkey⟩ | ⟨hname, -⟩ | hname)
    · exact hne (Bytes.ofText_inj.1 hkey)
    · exact absurd hname (by decide)
    · exact absurd hname (by decide)
  refine ⟨hvalid.account, fun hs => ?_, fun hs => ?_, fun hs => ?_⟩
  · subst hs
    obtain ⟨session, hne, hdecode, rfl, hhas⟩ := hvalid.session rfl
    refine ⟨session, hne, hdecode, rfl, huser (fun hemail => ?_) hhas⟩
    rw [hemail] at hv
    exact hne (herased.session hv)
  · subst hs
    obtain ⟨object, hne, hdecode, rfl, hhas⟩ := hvalid.object rfl
    have hload : (Objects.load object.id).answer c' = .ok (some object) :=
      Backend.answer_getRecord_eq_some_iff.2 ⟨v, hv, hne, hdecode⟩
    exact ⟨object, hne, hdecode, rfl, huser (herased.object hload) hhas⟩
  · obtain ⟨e, account, k', hvalue, hload, hkey⟩ := hvalid.adminKey hs
    refine ⟨e, account, k', hvalue, ?_, hkey⟩
    refine (Backend.answer_getRecord_of_differ herased.differ ?_).trans hload
    rintro (⟨hname, -⟩ | ⟨hname, -⟩ | hname)
    all_goals exact absurd hname (by decide)

/-- What a deletion of an admin leaves is in order: no key leads to the admin. -/
theorem remove_admin {k : String} {account : Account} (h : Sound c)
    (hauth : (Admins.authenticate k).answer c = .ok account) :
    Sound ((c.remove admins.name (Bytes.ofText account.email)).remove Admins.keySpace
      (Bytes.ofText k)) := by
  have hdiffer : Differ (fun s m => s = admins.name ∧ m = Bytes.ofText account.email ∨
      s = Admins.keySpace ∧ m = Bytes.ofText k) c
      ((c.remove admins.name (Bytes.ofText account.email)).remove Admins.keySpace
        (Bytes.ofText k)) :=
    (Differ.remove (.inl ⟨rfl, rfl⟩)).trans (.remove (.inr ⟨rfl, rfl⟩))
  refine ⟨fun s hs => (hdiffer.has_iff s).2 (h.has s hs), fun s m v hv => ?_⟩
  rw [value?_remove, value?_remove] at hv
  split at hv
  · contradiction
  next hkept =>
  split at hv
  · contradiction
  apply (h.valid s m v hv).mono
  · rintro e ⟨v, hv⟩
    refine ⟨v, (hdiffer.value?_eq ?_).trans hv⟩
    rintro (⟨hs, -⟩ | ⟨hs, -⟩)
    all_goals exact absurd hs (by decide)
  · intro e account' k' hs hkey hcarries hload
    refine (Backend.answer_getRecord_of_differ hdiffer ?_).trans hload
    rintro (⟨-, hemail⟩ | ⟨hname, -⟩)
    · -- Another key of the same admin would be the one that has just been removed.
      obtain ⟨-, e', -, hcarries', hload'⟩ := Admins.answer_authenticate_eq_ok_iff.1 hauth
      rw [← h.email_of_load hload', ← Bytes.ofText_inj.1 hemail, hload] at hload'
      rw [← Option.some.inj (Except.ok.inj hload'), hcarries] at hcarries'
      exact hkept ⟨hs, by rw [hkey, Option.some.inj hcarries']⟩
    · exact absurd hname (by decide)

end Sound

/-! ### Operations -/

section Operations

variable {α β : Type} {moment : Moment} {account : Account}

/-- An action keeps contents in order where no fault is armed. -/
def Keeps (x : Action α) : Prop := ∀ c, Sound c → Sound (x.on c).2

theorem keeps_of_readOnly {x : Action α} (h : x.ReadOnly) : Keeps x := by
  intro c hc
  rw [h.on_snd]
  exact hc

theorem Keeps.map {x : Action α} (h : Keeps x) (g : α → β) : Keeps (g <$> x) := by
  intro c hc
  rw [on, run_map]
  exact h c hc

/-- What comes after a read has to keep the order of what the read has found. -/
theorem keeps_then {x : Action α} {f : α → Action β} (hx : x.ReadOnly)
    (hf : ∀ a c, Sound c → x.answer c = .ok a → Sound ((f a).on c).2) : Keeps (x >>= f) := by
  intro c hc
  cases ha : x.answer c with
  | error e =>
    rw [hx.on_error ha]
    exact hc
  | ok a =>
    rw [hx.on_ok ha]
    exact hf a c hc ha

theorem keeps_create (now : Instant) (email password : String) :
    Keeps (Admins.create now email password) := by
  intro c hc
  rw [Admins.on_create (hc.has Admins.keySpace (by decide))]
  rcases hload : (admins.load email).answer c with e | _ | found
  · exact hc
  · have haccount : Sound (c.write admins.name (Bytes.ofText email)
        (Record.encode (Admins.newAccount now email password))) :=
      hc.write (by decide) (fun e _ hkey => Bytes.ofText_inj.1 hkey ▸ hload)
        (valid_account _ admins (Admins.newAccount now email password))
    refine haccount.write (by decide) (fun e hs => absurd hs (by decide))
      (valid_adminKey (Admins.newAccount now email password) ?_ rfl)
    refine (Backend.answer_getRecord_write_of_space_ne (by decide)).trans ?_
    exact Backend.answer_getRecord_write (hc.has admins.name (by decide)) _
  · exact hc

theorem keeps_deleteAdmin (key : String) : Keeps (Admins.delete key) := by
  intro c hc
  cases hauth : (Admins.authenticate key).answer c with
  | error e =>
    rw [Admins.on_delete_error hauth]
    exact hc
  | ok account =>
    obtain ⟨-, email, -, -, hload⟩ := Admins.answer_authenticate_eq_ok_iff.1 hauth
    rw [Admins.on_delete hauth ((hc.email_of_load hload).symm ▸ hload)]
    exact hc.remove_admin hauth

theorem keeps_createSeeded (email password seed : String) :
    Keeps (users.createSeeded email password seed) := by
  intro c hc
  rw [IdentitySpace.on_createSeeded]
  rcases (users.load email).answer c with e | _ | found
  · exact hc
  · exact hc.write (by decide) (fun e hs => absurd hs (by decide))
      (valid_account _ users ⟨email, .register password seed, none⟩)
  · exact hc

theorem Sound.deletable (h : Sound c) (email : String) : Deletable c email :=
  ⟨h.get_session email, h.readable⟩

theorem keeps_deleteUser (proof : DeletionProof) (email : String) :
    Keeps (deleteUser moment proof email) := by
  intro c hc
  rcases deleteUser_cases (hc.deletable email) moment proof with ⟨e, hon⟩ | ⟨c', hon, herased⟩
  all_goals rw [hon]
  · exact hc
  · exact hc.erased herased

theorem keeps_login (email password : String) : Keeps (login moment email password) := by
  apply keeps_then (readOnly_requireField _ _)
  intro _ c hc _
  cases hcheck : (users.checkPassword email password).answer c with
  | error e =>
    rw [Sessions.on_login_error hcheck]
    exact hc
  | ok _ =>
    obtain ⟨account, hload, -⟩ := IdentitySpace.answer_checkPassword_eq_ok_iff.1 hcheck
    rw [Sessions.on_login (hc.has Sessions.space (by decide)) hcheck]
    exact hc.write (by decide) (fun e hs => absurd hs (by decide))
      (valid_session (Sessions.opened moment.now moment.window email password)
        (hasUser_of_load hload).write)

/-- A use of a session fails and changes nothing, or the user has an account, as before. -/
theorem Sound.on_validate (h : Sound c) (moment : Moment) (email key : String) :
    (∃ e, (validate moment email key).on c = (.error e, c)) ∨
      ∃ c', (validate moment email key).on c = (.ok (), c') ∧ Sound c' ∧ HasUser c' email := by
  rcases Sessions.validate_cases moment.now moment.window email key c
      with herror | ⟨session, hget, hlive⟩
  · exact .inl herror
  · obtain ⟨hemail, huser⟩ := h.of_get hget
    refine .inr ⟨_, Sessions.on_validate_of_live hget hlive, ?_, huser.write⟩
    refine h.write (by decide) (fun e hs => absurd hs (by decide))
      (valid_session (Sessions.slid moment.now moment.window session) ?_)
    exact (hemail.symm ▸ huser : HasUser c session.email).write

theorem keeps_validate (email key : String) : Keeps (validate moment email key) := by
  intro c hc
  rcases hc.on_validate moment email key with ⟨e, herror⟩ | ⟨c', hon, hc', -⟩
  · rw [herror]
    exact hc
  · rw [hon]
    exact hc'

theorem keeps_logout (email key : String) : Keeps (logout moment email key) := by
  intro c hc
  rcases Sessions.validate_cases moment.now moment.window email key c
      with ⟨e, herror⟩ | ⟨session, hget, hlive⟩
  · rw [logout, Sessions.on_logout_error herror]
    exact hc
  · rw [logout, Sessions.on_logout_of_live hget hlive (hc.of_get hget).1]
    exact hc.remove fun identities => by cases identities <;> decide

/-- What is done for the user of a session has to keep the order for a user with an account. -/
theorem keeps_gated {x : Action α} (email key : String)
    (hx : ∀ c, Sound c → HasUser c email → Sound (x.on c).2) :
    Keeps (validate moment email key >>= fun _ => x) := by
  intro c hc
  have hsteady : (validate moment email key).Steady :=
    (Sessions.atomic_validate moment.now moment.window email key).steady
  rcases hc.on_validate moment email key with ⟨e, herror⟩ | ⟨c', hon, hc', huser⟩
  · rw [on_bind_error hsteady herror]
    exact hc
  · rw [on_bind_ok hsteady hon]
    exact hx c' hc' huser

theorem Sound.put (h : Sound c) (huser : HasUser c email) (id : String) (payload : Bytes) :
    Sound ((Objects.put id payload email).on c).2 := by
  rw [Objects.on_put]
  rcases hload : (Objects.load id).answer c with e | _ | object
  · exact h
  · exact h.write (by decide) (fun e hs => absurd hs (by decide))
      (valid_object ⟨id, payload, ⟨email⟩⟩ huser.write)
  · simp only
    split
    · exact h.write (by decide) (fun e hs => absurd hs (by decide))
        (valid_object ⟨id, payload, object.perms⟩ (h.of_load hload).write)
    · exact h

theorem Sound.delete (h : Sound c) (id caller : String) :
    Sound ((Objects.delete id caller).on c).2 := by
  rw [Objects.on_delete]
  rcases (Objects.load id).answer c with e | _ | object
  · exact h
  · exact h
  · simp only
    split
    · exact h.remove fun identities => by cases identities <;> decide
    · exact h

theorem keeps_bootstrapAdmin (email password : String) :
    Keeps (bootstrapAdmin moment email password) := by
  intro c hc
  rw [bootstrapAdmin, on_andThen (Admins.readOnly_ofEmail email).steady,
    (Admins.readOnly_ofEmail email).on_eq]
  rcases (Admins.ofEmail email).answer c with e | account
  · cases e with
    | notFound _ =>
      exact (keeps_create moment.now email password).map some c hc
    | _ => exact hc
  · exact hc

theorem keeps_createAdmin (key email password : String) :
    Keeps (createAdmin moment key email password) :=
  keeps_then (readOnly_requireField _ _) fun _ c hc _ =>
    keeps_then (Admins.readOnly_authenticate key)
      (fun _ c hc _ => keeps_create moment.now email password c hc) c hc

theorem keeps_createUser (key email password : String) :
    Keeps (createUser moment key email password) :=
  keeps_then (readOnly_requireField _ _) fun _ c hc _ =>
    keeps_then (Admins.readOnly_authenticate key)
      (fun _ c hc _ => (keeps_createSeeded email password moment.now.seed).map (fun _ => ()) c hc)
        c hc

/-- Every operation keeps contents in order. -/
theorem keeps_run (op : Operation) (moment : Moment) : Keeps (op.run moment) := by
  cases op with
  | bootstrapAdmin email password => exact (keeps_bootstrapAdmin email password).map _
  | checkAdmin key => exact (keeps_of_readOnly (Admins.readOnly_authenticate key)).map _
  | createAdmin key email password => exact (keeps_createAdmin key email password).map _
  | deleteAdmin key => exact (keeps_deleteAdmin key).map _
  | createUser key email password => exact (keeps_createUser key email password).map _
  | deleteUser proof email => exact (keeps_deleteUser proof email).map _
  | login email password => exact (keeps_login email password).map _
  | validate email key => exact (keeps_validate email key).map _
  | logout email key => exact (keeps_logout email key).map _
  | putObject email key id payload =>
    refine Keeps.map (keeps_then (readOnly_requireField _ _) fun _ c hc _ => ?_) _
    exact keeps_gated email key (fun c hc huser => hc.put huser id payload) c hc
  | getObject email key id =>
    refine Keeps.map (keeps_gated email key fun c hc _ => ?_) _
    exact keeps_of_readOnly (Objects.readOnly_get id email) c hc
  | deleteObject email key id =>
    exact Keeps.map (keeps_gated email key fun c hc _ => hc.delete id email) _

end Operations

/-! ### Runs -/

/-- What operations leave that are done one after the other, each at its moment. -/
def runAll (b : Backend) (steps : List (Operation × Moment)) : Backend :=
  steps.foldl (fun b step => ((step.1.run step.2).run b).2) b

theorem sound_foldl (steps : List (Operation × Moment)) (h : Sound c) :
    Sound (runAll ⟨c, []⟩ steps).contents := by
  induction steps generalizing c with
  | nil => exact h
  | cons step steps ih =>
    have hstep : runAll ⟨c, []⟩ (step :: steps)
        = runAll ⟨((step.1.run step.2).on c).2, []⟩ steps := by
      rw [runAll, List.foldl_cons, run_eq_on (steady_run step.1 step.2)]
      rfl
    rw [hstep]
    exact ih (keeps_run step.1 step.2 c h)

/-- Whatever a new service is asked for, its contents are in order. -/
theorem sound_runAll (steps : List (Operation × Moment)) :
    (setup.run Backend.empty).1 = .ok () ∧
      Sound (runAll (setup.run Backend.empty).2 steps).contents := by
  rw [run_setup]
  exact ⟨rfl, sound_foldl steps sound_initial⟩

end AuthVault.Service
