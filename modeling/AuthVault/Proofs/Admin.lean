import AuthVault.Admin
import AuthVault.Proofs.Account

/-!
# What the operations on admins do

A key authenticates an admin exactly if the index leads from it to an email whose account carries it
(`answer_authenticate_eq_ok_iff`). Where no fault is armed, a new admin takes an entry of the
accounts and one of the index (`on_create`), and a removed one gives both back (`on_delete`). In a
backend with faults either may stop on its way; what it has changed by then are entries of these two
namespaces (`differ_create`, `differ_delete`).
-/

namespace AuthVault.Admins

open AuthVault.Action Contents
open IdentitySpace (admins)

variable {c : Contents} {key email password : String} {account : Account}

/-! ### Looking up -/

theorem readOnly_ofEmail (email : String) : (ofEmail email).ReadOnly :=
  (IdentitySpace.readOnly_get admins email).mapError fun _ => rfl

theorem answer_ofEmail (c : Contents) : (ofEmail email).answer c =
    match (admins.load email).answer c with
    | .ok (some account) => .ok account
    | .ok none => .error (.notFound ("admin for email " ++ Text.quoted email))
    | .error e => .error (hideAccount (.notFound ("admin for email " ++ Text.quoted email)) e) := by
  rw [answer, ofEmail, on_mapError (IdentitySpace.readOnly_get admins email).steady]
  show ((admins.get email).answer c).mapError _ = _
  rw [IdentitySpace.answer_get]
  rcases (admins.load email).answer c with e | _ | account <;> rfl

theorem answer_ofEmail_eq_ok_iff : (ofEmail email).answer c = .ok account ↔
    (admins.load email).answer c = .ok (some account) := by
  rw [answer_ofEmail]
  rcases (admins.load email).answer c with e | _ | found
  all_goals simp

theorem readOnly_authenticate (key : String) : (authenticate key).ReadOnly := by
  unfold authenticate
  by_cases hkey : key = ""
  · rw [if_pos hkey, throw_bind]
    exact readOnly_throw _
  · rw [if_neg hkey]
    apply (Backend.readOnly_get _ _).bind
    intro owner
    cases owner with
    | none => exact readOnly_throw _
    | some owner =>
      cases htext : Bytes.text? owner with
      | none => simpa only [htext] using readOnly_throw _
      | some email =>
        simp only [htext]
        apply ((IdentitySpace.readOnly_get admins email).mapError fun _ => rfl).bind
        intro account
        by_cases hcarries : account.key ≠ some key
        · rw [if_pos hcarries, throw_bind]
          exact readOnly_throw _
        · rw [if_neg hcarries]
          exact readOnly_pure _

/-- The last step: the account of the email must carry the key. -/
theorem answer_carrier (email : String) (c : Contents) :
    (do
      let account ← (admins.get email).mapError (hideAccount (noSuchKey key))
      if account.key ≠ some key then throw (noSuchKey key)
      return account : Action Account).answer c = .ok account ↔
    account.key = some key ∧ (admins.load email).answer c = .ok (some account) := by
  have hread := (IdentitySpace.readOnly_get admins email).mapError
    (f := hideAccount (noSuchKey key)) fun _ => rfl
  have hget : ((admins.get email).mapError (hideAccount (noSuchKey key))).answer c
      = ((admins.get email).answer c).mapError (hideAccount (noSuchKey key)) := by
    rw [answer, on_mapError (IdentitySpace.readOnly_get admins email).steady]
    rfl
  cases hanswer : (admins.get email).answer c with
  | error e =>
    rw [answer, hread.on_error (by rw [hget, hanswer]; rfl)]
    constructor
    · intro h
      contradiction
    · rintro ⟨-, h⟩
      rw [IdentitySpace.answer_get_eq_ok_iff.2 h] at hanswer
      contradiction
  | ok found =>
    have hload := IdentitySpace.answer_get_eq_ok_iff.1 hanswer
    rw [answer, hread.on_ok (by rw [hget, hanswer]; rfl)]
    by_cases hcarries : found.key = some key
    · rw [if_neg (not_not_intro hcarries)]
      constructor
      · intro h
        rw [← Except.ok.inj h]
        exact ⟨hcarries, hload⟩
      · rintro ⟨-, h⟩
        rw [hload] at h
        rw [← Option.some.inj (Except.ok.inj h)]
        rfl
    · rw [if_pos hcarries, throw_bind]
      constructor
      · intro h
        contradiction
      · rintro ⟨h, hfound⟩
        rw [hload] at hfound
        rw [Option.some.inj (Except.ok.inj hfound)] at hcarries
        exact absurd h hcarries

/-- A key authenticates the account that carries it and to whose email the index leads from it. -/
theorem answer_authenticate_eq_ok_iff : (authenticate key).answer c = .ok account ↔
    key ≠ "" ∧ ∃ email, c.value? keySpace (Bytes.ofText key) = some (Bytes.ofText email) ∧
      account.key = some key ∧ (admins.load email).answer c = .ok (some account) := by
  have hget := Backend.readOnly_get keySpace (Bytes.ofText key)
  unfold authenticate
  by_cases hkey : key = ""
  · rw [if_pos hkey, throw_bind]
    constructor
    · intro h
      contradiction
    · rintro ⟨hne, -⟩
      exact absurd hkey hne
  rw [if_neg hkey]
  by_cases hhas : c.Has keySpace
  · rw [answer, hget.on_ok (by rw [answer, Backend.on_get hhas])]
    cases hvalue : c.value? keySpace (Bytes.ofText key) with
    | none =>
      constructor
      · intro h
        contradiction
      · rintro ⟨-, email, h, -⟩
        contradiction
    | some owner =>
      simp only
      cases htext : Bytes.text? owner with
      | none =>
        constructor
        · intro h
          contradiction
        · rintro ⟨-, email, h, -⟩
          rw [Option.some.inj h, Bytes.text?_ofText] at htext
          contradiction
      | some email =>
        rw [Bytes.text?_eq_some_iff.1 htext]
        refine (answer_carrier email c).trans ?_
        constructor
        · intro h
          exact ⟨hkey, email, rfl, h⟩
        · rintro ⟨-, email', hemail, h⟩
          rw [Bytes.ofText_inj.1 (Option.some.inj hemail)]
          exact h
  · rw [answer, hget.on_error (by rw [answer, Backend.on_get_of_not_has hhas])]
    constructor
    · intro h
      contradiction
    · rintro ⟨-, email, h, -⟩
      rw [value?_of_not_has hhas] at h
      contradiction

theorem ignores_ofEmail {faults : List Fault}
    (h : ∀ f ∈ faults, ¬ (f.call = .get ∧ f.space = admins.name)) (email : String) :
    (ofEmail email).Ignores faults :=
  (IdentitySpace.ignores_get h email).mapError (IdentitySpace.readOnly_get admins email).steady _

theorem ignores_authenticate {faults : List Fault} (h : ∀ f ∈ faults, f.call ≠ .get)
    (key : String) : (authenticate key).Ignores faults := by
  have hget : ∀ space : String, ∀ f ∈ faults, ¬ (f.call = .get ∧ f.space = space) :=
    fun _ f hf hcall => h f hf hcall.1
  unfold authenticate
  by_cases hkey : key = ""
  · rw [if_pos hkey, throw_bind]
    exact ignores_throw _ faults
  rw [if_neg hkey]
  apply (ignores_perform (hget keySpace) _).bind (Backend.readOnly_get _ _).steady
  intro owner
  cases owner with
  | none => exact ignores_throw _ faults
  | some owner =>
    cases htext : Bytes.text? owner with
    | none => simpa only [htext] using ignores_throw _ faults
    | some email =>
      simp only [htext]
      have hread := IdentitySpace.readOnly_get admins email
      apply ((IdentitySpace.ignores_get (hget _) email).mapError hread.steady _).bind
        (hread.mapError fun _ => rfl).steady
      intro account
      split
      · exact ignores_throw _ faults
      · exact ignores_pure account faults

/-! ### Changes -/

/-- The account of a new admin, whose key is minted from the same seed as the salt. -/
def newAccount (now : Instant) (email password : String) : Account :=
  let credential := Credential.register password now.seed
  ⟨email, credential, some (Credential.issueToken credential.hash now.seed)⟩

/-- The key of a new admin. -/
def newKey (now : Instant) (password : String) : String :=
  Credential.issueToken (Credential.register password now.seed).hash now.seed

theorem newKey_ne_empty (now : Instant) (password : String) : newKey now password ≠ "" :=
  Credential.issueToken_ne_empty _ _

theorem key_newAccount (now : Instant) (email password : String) :
    (newAccount now email password).key = some (newKey now password) := rfl

/-- Leads from the key of a new admin to its email; removes the account again if that fails. -/
def index (now : Instant) (email password : String) : Action String :=
  (Backend.put keySpace (Bytes.ofText (newKey now password)) (Bytes.ofText email)).andThen fun
    | .ok () => return newKey now password
    | .error e => do
      admins.delete email
      throw e

theorem create_eq (now : Instant) (email password : String) :
    create now email password
      = admins.insert (newAccount now email password) >>= fun _ => index now email password := rfl

theorem on_index (hhas : c.Has keySpace) (now : Instant) :
    (index now email password).on c = (.ok (newKey now password),
      c.write keySpace (Bytes.ofText (newKey now password)) (Bytes.ofText email)) := by
  rw [index, on_andThen (Backend.atomic_put _ _ _).steady, Backend.on_put hhas]
  rfl

theorem steady_create (now : Instant) (email password : String) :
    (create now email password).Steady := by
  apply (IdentitySpace.atomic_insert admins _).steady.bind
  intro _
  apply (Backend.atomic_put _ _ _).steady.andThen
  intro r
  cases r with
  | ok _ => exact (readOnly_pure _).steady
  | error e =>
    exact (IdentitySpace.atomic_delete admins email).steady.bind fun _ => (readOnly_throw e).steady

/-- Where the index exists, a new admin is stored exactly if there is none of its email. -/
theorem on_create (hhas : c.Has keySpace) (now : Instant) : (create now email password).on c =
    match (admins.load email).answer c with
    | .ok none => (.ok (newKey now password),
        (c.write admins.name (Bytes.ofText email)
          (Record.encode (newAccount now email password))).write
          keySpace (Bytes.ofText (newKey now password)) (Bytes.ofText email))
    | .ok (some _) => (.error (.alreadyExists (accountSubject email)), c)
    | .error e => (.error e, c) := by
  have hinsert := IdentitySpace.on_insert admins (newAccount now email password) c
  have hsteady := (IdentitySpace.atomic_insert admins (newAccount now email password)).steady
  rw [show (newAccount now email password).email = email from rfl] at hinsert
  rw [create_eq]
  rcases h : (admins.load email).answer c with e | _ | found
  all_goals simp only [h] at hinsert
  · exact on_bind_error hsteady hinsert
  · rw [on_bind_ok hsteady hinsert]
    exact on_index ((has_write _ _).2 hhas) now
  · exact on_bind_error hsteady hinsert

theorem steady_delete (key : String) : (delete key).Steady :=
  (readOnly_authenticate key).steady.bind fun account =>
    (IdentitySpace.atomic_delete admins account.email).steady.bind fun _ =>
      (Backend.atomic_delete _ _).steady

theorem on_delete_error {e : AuthError} (h : (authenticate key).answer c = .error e) :
    (delete key).on c = (.error e, c) :=
  (readOnly_authenticate key).on_error h

/-- The admin whom the key authenticates is removed with its key. -/
theorem on_delete (hauth : (authenticate key).answer c = .ok account)
    (hload : (admins.load account.email).answer c = .ok (some account)) : (delete key).on c =
      (.ok (), (c.remove admins.name (Bytes.ofText account.email)).remove
        keySpace (Bytes.ofText key)) := by
  have hremove := IdentitySpace.on_delete admins account.email c
  simp only [hload] at hremove
  obtain ⟨-, email, hvalue, -⟩ := answer_authenticate_eq_ok_iff.1 hauth
  rw [delete, (readOnly_authenticate key).on_ok hauth,
    on_bind_ok (IdentitySpace.atomic_delete admins account.email).steady hremove]
  exact Backend.on_delete ((has_remove _).2 (has_of_value? hvalue)) _

/-! ### Changes in a backend with faults -/

section Faults

variable {P : String → Bytes → Prop} {b : Backend}

theorem differ_index (now : Instant) (hadmin : P admins.name (Bytes.ofText email))
    (hkey : P keySpace (Bytes.ofText (newKey now password))) (b : Backend) :
    Differ P b.contents ((index now email password).run b).2.contents := by
  apply differ_andThen (Backend.differ_put hkey _ b)
  intro r b'
  cases r with
  | ok _ => exact .refl _
  | error e =>
    exact differ_bind (IdentitySpace.differ_delete fun _ _ => hadmin) fun _ _ => .refl _

/-- A new admin takes the entries of its email and its key, if there was none of the email. -/
theorem differ_create {now : Instant}
    (hadmin : (admins.load email).answer b.contents = .ok none → P admins.name (Bytes.ofText email))
    (hkey : (admins.load email).answer b.contents = .ok none →
      P keySpace (Bytes.ofText (newKey now password))) :
    Differ P b.contents ((create now email password).run b).2.contents := by
  rw [create_eq]
  refine differ_bind (IdentitySpace.differ_insert hadmin) ?_
  intro _ hok
  have hload := IdentitySpace.load_of_insert_ok hok
  exact differ_index now (hadmin hload) (hkey hload) _

/-- The admin whom a key authenticates gives back the entries of its email and of the key. -/
theorem differ_delete
    (hadmin : ∀ account, (authenticate key).answer b.contents = .ok account →
      P admins.name (Bytes.ofText account.email))
    (hkey : ∀ account, (authenticate key).answer b.contents = .ok account →
      P keySpace (Bytes.ofText key)) :
    Differ P b.contents ((delete key).run b).2.contents := by
  apply differ_bind ((readOnly_authenticate key).differ b)
  intro account hok
  have hauth := (readOnly_authenticate key).answer_of_ok hok
  exact differ_bind (IdentitySpace.differ_delete fun _ _ => hadmin account hauth) fun _ _ =>
    Backend.differ_delete (hkey account hauth) _

end Faults

end AuthVault.Admins
