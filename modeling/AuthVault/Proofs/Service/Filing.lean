import AuthVault.Proofs.Service

/-!
# What operations store

Every entry that an operation adds is a record that has been encoded and is stored under the email,
the key or the id that it carries; no user has the empty email, and an object comes from an operation
that puts it (`Filed`, `stores_run`). So it is wherever the operation stops, since what an action adds
is added by one of its calls (`Stores`). A use of a session, for one, stores the session under the
email that it carries, whatever email it has been found under.
-/

namespace AuthVault

open AuthVault.Action Contents
open IdentitySpace (users admins)

variable {α β : Type}

/-! ### What an action adds -/

namespace Action

/-- All entries that an action adds are of a kind, whether it succeeds or fails. -/
def Stores (P : String → Bytes → Bytes → Prop) (x : Action α) : Prop :=
  ∀ b, Adds P b.contents (x.run b).2.contents

variable {P : String → Bytes → Bytes → Prop} {x : Action α}

theorem stores_of_atomic (hx : x.Atomic) (hon : ∀ c, Adds P c (x.on c).2) : Stores P x := by
  intro b
  rcases hx.contents_cases b with hb | hb
  · rw [hb]
    exact .refl _
  · rw [hb]
    exact hon b.contents

theorem stores_of_readOnly (hx : x.ReadOnly) : Stores P x :=
  stores_of_atomic hx.atomic fun c => (hx.on_snd c).symm ▸ .refl c

theorem stores_throw (e : AuthError) : Stores P (throw e : Action α) :=
  stores_of_readOnly (readOnly_throw e)

theorem Stores.andThen {next : Except AuthError α → Action β} (hx : Stores P x)
    (hnext : ∀ r, Stores P (next r)) : Stores P (x.andThen next) :=
  fun b => (hx b).trans (hnext _ _)

theorem Stores.bind {f : α → Action β} (hx : Stores P x) (hf : ∀ a, Stores P (f a)) :
    Stores P (x >>= f) := by
  apply hx.andThen
  intro r
  cases r with
  | ok a => exact hf a
  | error e => exact stores_throw e

theorem Stores.map (hx : Stores P x) (g : α → β) : Stores P (g <$> x) := by
  rw [← bind_pure_comp]
  exact hx.bind fun _ => stores_of_readOnly (readOnly_pure _)

theorem stores_put {space : String} {key value : Bytes} (h : P space key value) :
    Stores P (Backend.put space key value) := by
  refine stores_of_atomic (Backend.atomic_put _ _ _) fun c => ?_
  by_cases hhas : c.Has space
  · rw [Backend.on_put hhas]
    exact .write h
  · rw [Backend.on_put_of_not_has hhas]
    exact .refl c

theorem stores_delete (space : String) (key : Bytes) : Stores P (Backend.delete space key) := by
  refine stores_of_atomic (Backend.atomic_delete _ _) fun c => ?_
  by_cases hhas : c.Has space
  · rw [Backend.on_delete hhas]
    exact .remove
  · rw [Backend.on_delete_of_not_has hhas]
    exact .refl c

end Action

namespace Service

/-! ### Records in their places -/

/-- An entry is a record in its place; objects have ids of a kind. -/
inductive Filed (ids : String → Prop) : String → Bytes → Bytes → Prop
  | user (account : Account) (named : account.email ≠ "") :
      Filed ids users.name (Bytes.ofText account.email) (Record.encode account)
  | admin (account : Account) :
      Filed ids admins.name (Bytes.ofText account.email) (Record.encode account)
  | adminKey (key email : String) :
      Filed ids Admins.keySpace (Bytes.ofText key) (Bytes.ofText email)
  | session (session : Session) :
      Filed ids Sessions.space (Bytes.ofText session.email) (Record.encode session)
  | object (object : StoredObject) (named : ids object.id) :
      Filed ids Objects.space (Bytes.ofText object.id) (Record.encode object)

variable {ids : String → Prop} {moment : Moment}

section Filed

variable {k v : Bytes}

theorem Filed.of_user (h : Filed ids users.name k v) : ∃ account : Account,
    account.email ≠ "" ∧ k = Bytes.ofText account.email ∧ v = Record.encode account := by
  generalize hs : users.name = s at h
  cases h with
  | user account named => exact ⟨account, named, rfl, rfl⟩
  | _ => exact absurd hs (by decide)

theorem Filed.of_session (h : Filed ids Sessions.space k v) : ∃ session : Session,
    k = Bytes.ofText session.email ∧ v = Record.encode session := by
  generalize hs : Sessions.space = s at h
  cases h with
  | session session => exact ⟨session, rfl, rfl⟩
  | _ => exact absurd hs (by decide)

theorem Filed.of_object (h : Filed ids Objects.space k v) : ∃ object : StoredObject,
    ids object.id ∧ k = Bytes.ofText object.id ∧ v = Record.encode object := by
  generalize hs : Objects.space = s at h
  cases h with
  | object object named => exact ⟨object, named, rfl, rfl⟩
  | _ => exact absurd hs (by decide)

end Filed

theorem Filed.mono {ids ids' : String → Prop} {s : String} {k v : Bytes} (h : Filed ids s k v)
    (hids : ∀ id, ids id → ids' id) : Filed ids' s k v := by
  cases h with
  | user account named => exact .user account named
  | admin account => exact .admin account
  | adminKey key email => exact .adminKey key email
  | session session => exact .session session
  | object object named => exact .object object (hids _ named)

/-! ### Operations -/

theorem stores_insert {identities : IdentitySpace} {account : Account}
    (h : Filed ids identities.name (Bytes.ofText account.email) (Record.encode account)) :
    Stores (Filed ids) (identities.insert account) := by
  refine stores_of_atomic (IdentitySpace.atomic_insert identities account) fun c => ?_
  rw [IdentitySpace.on_insert]
  rcases (identities.load account.email).answer c with e | _ | found
  · exact .refl c
  · exact .write h
  · exact .refl c

theorem stores_deleteAccount (identities : IdentitySpace) (email : String) :
    Stores (Filed ids) (identities.delete email) := by
  refine stores_of_atomic (IdentitySpace.atomic_delete identities email) fun c => ?_
  rw [IdentitySpace.on_delete]
  rcases (identities.load email).answer c with e | _ | found
  · exact .refl c
  · exact .refl c
  · exact .remove

theorem stores_create (now : Instant) (email password : String) :
    Stores (Filed ids) (Admins.create now email password) := by
  rw [Admins.create_eq]
  refine (stores_insert (.admin _)).bind fun _ => ?_
  refine (stores_put (.adminKey _ _)).andThen fun r => ?_
  cases r with
  | ok _ => exact stores_of_readOnly (readOnly_pure _)
  | error e => exact (stores_deleteAccount admins email).bind fun _ => stores_throw e

theorem stores_bootstrapAdmin (email password : String) :
    Stores (Filed ids) (bootstrapAdmin moment email password) := by
  refine (stores_of_readOnly (Admins.readOnly_ofEmail email)).andThen fun r => ?_
  rcases r with e | account
  · cases e with
    | notFound _ => exact (stores_create moment.now email password).map some
    | _ => exact stores_throw _
  · exact stores_of_readOnly (readOnly_pure _)

theorem stores_store (session : Session) : Stores (Filed ids) (Sessions.store session) :=
  stores_put (.session session)

theorem stores_validate (email key : String) : Stores (Filed ids) (validate moment email key) := by
  rw [validate, Sessions.validate_eq]
  refine (stores_of_readOnly (Sessions.readOnly_get email)).bind fun found => ?_
  cases found with
  | none => exact stores_throw _
  | some session =>
    show Stores _ (Sessions.use _ _ _ _ _)
    unfold Sessions.use
    split
    · exact stores_throw _
    · split
      · exact stores_throw _
      · exact stores_store _

theorem stores_putObject {id : String} (h : ids id) (payload : Bytes) (caller : String) :
    Stores (Filed ids) (Objects.put id payload caller) := by
  refine stores_of_atomic (Objects.atomic_put id payload caller) fun c => ?_
  rw [Objects.on_put]
  rcases (Objects.load id).answer c with e | _ | object
  · exact .refl c
  · exact .write (.object ⟨id, payload, ⟨caller⟩⟩ h)
  · simp only
    split
    · exact .write (.object ⟨id, payload, object.perms⟩ h)
    · exact .refl c

theorem stores_deleteObject (id caller : String) :
    Stores (Filed ids) (Objects.delete id caller) := by
  refine stores_of_atomic (Objects.atomic_delete id caller) fun c => ?_
  rw [Objects.on_delete]
  rcases (Objects.load id).answer c with e | _ | object
  · exact .refl c
  · exact .refl c
  · simp only
    split
    · exact .remove
    · exact .refl c

theorem stores_deleteAllIn (listing : Listing Bytes) (owner : String) :
    Stores (Filed ids) (Objects.deleteAllIn listing owner) :=
  fun b => ⟨(Objects.purged_deleteAllIn listing owner b).has_iff,
    fun _ _ _ hv => .inl ((Objects.purged_deleteAllIn listing owner b).value?_of_some hv)⟩

theorem stores_clear (email : String) : Stores (Filed ids) (Sessions.clear email) := by
  rw [Sessions.clear_eq]
  refine (stores_of_readOnly (Sessions.readOnly_get email)).bind fun found => ?_
  cases found with
  | none => exact stores_of_readOnly (readOnly_pure _)
  | some session =>
    exact (stores_delete _ _).bind fun _ => stores_of_readOnly (readOnly_pure _)

/-- A user is stored after a check that the email is not empty. -/
theorem stores_createUser (key email password : String) :
    Stores (Filed ids) (createUser moment key email password) := by
  unfold createUser requireField
  split
  · exact stores_throw _
  · next hemail =>
    refine (stores_of_readOnly (Admins.readOnly_authenticate key)).bind fun _ => ?_
    exact ((stores_insert (.user _ hemail)).bind fun _ =>
      stores_of_readOnly (readOnly_pure _)).bind fun _ => stores_of_readOnly (readOnly_pure _)

/-- An operation that may put an object under an id. -/
def Operation.Puts (id : String) : Operation → Prop
  | .putObject _ _ id' _ => id' = id
  | _ => False

/-- What comes after a check that reads only. -/
theorem stores_then {x : Action α} {f : α → Action β} (hx : x.ReadOnly)
    (hf : ∀ a, Stores (Filed ids) (f a)) : Stores (Filed ids) (x >>= f) :=
  (stores_of_readOnly hx).bind hf

theorem stores_deleteUser (moment : Moment) (proof : DeletionProof) (email : String) :
    Stores (Filed ids) (deleteUser moment proof email) := by
  refine stores_then (readOnly_requireField _ _) fun _ => ?_
  refine stores_then (readOnly_checkProof proof email) fun _ => ?_
  refine (stores_deleteAccount users email).bind fun _ => (stores_clear email).bind fun _ => ?_
  exact (stores_deleteAllIn moment.listing email).bind fun _ => stores_of_readOnly (readOnly_pure _)

/-- Wherever it stops, an operation adds records in their places only, and no object but one that it
puts. -/
theorem stores_run (op : Operation) (moment : Moment) :
    Stores (Filed fun id => op.Puts id) (op.run moment) := by
  cases op with
  | bootstrapAdmin email password => exact (stores_bootstrapAdmin email password).map _
  | checkAdmin key => exact (stores_of_readOnly (Admins.readOnly_authenticate key)).map _
  | createAdmin key email password =>
    refine Stores.map (stores_then (readOnly_requireField _ _) fun _ => ?_) _
    exact stores_then (Admins.readOnly_authenticate key) fun _ =>
      stores_create moment.now email password
  | deleteAdmin key =>
    refine Stores.map (stores_then (Admins.readOnly_authenticate key) fun account => ?_) _
    exact (stores_deleteAccount admins account.email).bind fun _ => stores_delete _ _
  | createUser key email password => exact (stores_createUser key email password).map _
  | deleteUser proof email => exact (stores_deleteUser moment proof email).map _
  | login email password =>
    refine Stores.map (stores_then (readOnly_requireField _ _) fun _ => ?_) _
    refine stores_then (IdentitySpace.readOnly_checkPassword users email password) fun _ => ?_
    exact (stores_store _).bind fun _ => stores_of_readOnly (readOnly_pure _)
  | validate email key => exact (stores_validate email key).map _
  | logout email key => exact ((stores_validate email key).bind fun _ => stores_delete _ _).map _
  | putObject email key id payload =>
    refine Stores.map (stores_then (readOnly_requireField _ _) fun _ => ?_) _
    exact (stores_validate email key).bind fun _ => stores_putObject rfl payload email
  | getObject email key id =>
    exact ((stores_validate email key).bind fun _ =>
      stores_of_readOnly (Objects.readOnly_get id email)).map _
  | deleteObject email key id =>
    exact ((stores_validate email key).bind fun _ => stores_deleteObject id email).map _

end Service

end AuthVault
