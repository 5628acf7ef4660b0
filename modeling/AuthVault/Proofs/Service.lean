import AuthVault.Proofs.Admin
import AuthVault.Proofs.Object
import AuthVault.Proofs.Session
import AuthVault.Service

/-!
# What the operations of the service do

The checks that come first in an operation read only (`readOnly_requireField`,
`readOnly_checkProof`), and what entitles to an operation is told by the records found: `AdminKey`,
`Password`, `SessionKey`, `Entitled`. What is done for an admin is done exactly where there is one
(`on_forAdmin`, `forAdmin_cases`). A use of a session changes the entry of its email alone, so
what comes after it finds accounts and objects as they were (`differ_validate`). Only a fault that
fires makes a difference to an operation (`steady_run`).
-/

namespace AuthVault

/-- The first instant, with the window of sessions where none is configured. -/
def Moment.first : Moment := ⟨.first, Sessions.defaultWindow, .ascending⟩

namespace Service

open AuthVault.Action Contents
open IdentitySpace (users admins)

variable {c : Contents} {now : Instant} {email key password : String}

/-! ### The beginning -/

/-- What a new service begins with. -/
def initial : Contents := (setup.on .empty).2

theorem steady_setup : setup.Steady := Backend.steady_createAll namespaces

theorem on_setup : setup.on .empty = (.ok (), initial) := by
  obtain ⟨c, hsetup, -⟩ := Backend.on_createAll namespaces .empty
  rw [initial, setup, hsetup]

theorem run_setup : setup.run Backend.empty = (.ok (), ⟨initial, []⟩) := by
  rw [Backend.empty, run_eq_on steady_setup, on_setup]

theorem has_initial (s : String) : initial.Has s ↔ s ∈ namespaces := by
  obtain ⟨c, hsetup, hhas, -⟩ := Backend.on_createAll namespaces .empty
  rw [initial, setup, hsetup, hhas]
  exact ⟨fun h => h.elim (fun ⟨t, ht⟩ => by contradiction) id, .inr⟩

theorem value?_initial (s : String) (k : Bytes) : initial.value? s k = none := by
  obtain ⟨c, hsetup, -, hvalue⟩ := Backend.on_createAll namespaces .empty
  rw [initial, setup, hsetup, hvalue]
  rfl

/-! ### Checks -/

theorem readOnly_requireField (name value : String) : (requireField name value).ReadOnly := by
  unfold requireField
  split
  · exact readOnly_throw _
  · exact readOnly_pure _

theorem answer_requireField {name value : String} (h : value ≠ "") (c : Contents) :
    (requireField name value).answer c = .ok () := by
  rw [requireField, if_neg h]
  rfl

theorem ne_empty_of_requireField {name value : String}
    (h : (requireField name value).answer c = .ok ()) : value ≠ "" := by
  intro hempty
  rw [requireField, if_pos hempty] at h
  contradiction

/-- A key that authenticates an admin. -/
def AdminKey (c : Contents) (key : String) : Prop :=
  ∃ account, (Admins.authenticate key).answer c = .ok account

/-- A password that the account of an email verifies. -/
def Password (c : Contents) (email password : String) : Prop :=
  ∃ account, (users.load email).answer c = .ok (some account) ∧
    account.credential.verify password = true

/-- The key of a session of an email that lasts beyond an instant. -/
def SessionKey (c : Contents) (now : Instant) (email key : String) : Prop :=
  ∃ session, (Sessions.get email).answer c = .ok (some session) ∧ Sessions.Live now key session

/-- What entitles to delete the account of an email. -/
def Entitled (c : Contents) (email : String) : DeletionProof → Prop
  | .adminKey key => AdminKey c key
  | .password password => Password c email password

theorem readOnly_checkProof (proof : DeletionProof) (email : String) :
    (checkProof proof email).ReadOnly := by
  cases proof with
  | adminKey key => exact (Admins.readOnly_authenticate key).bind fun _ => readOnly_pure _
  | password password => exact IdentitySpace.readOnly_checkPassword _ _ _

theorem answer_checkProof_eq_ok_iff {proof : DeletionProof} :
    (checkProof proof email).answer c = .ok () ↔ Entitled c email proof := by
  cases proof with
  | password password => exact IdentitySpace.answer_checkPassword_eq_ok_iff
  | adminKey key =>
    have hread := Admins.readOnly_authenticate key
    show (Admins.authenticate key >>= fun _ => pure ()).answer c = .ok () ↔ AdminKey c key
    cases hauth : (Admins.authenticate key).answer c with
    | error e =>
      rw [answer, hread.on_error hauth]
      constructor
      · intro h
        contradiction
      · rintro ⟨account, h⟩
        rw [hauth] at h
        contradiction
    | ok account =>
      rw [answer, hread.on_ok hauth]
      exact ⟨fun _ => ⟨account, hauth⟩, fun _ => rfl⟩

section Admin

variable {α : Type} (x : Action α)

/-- What is done for an admin, with an email that is not empty. -/
theorem on_forAdmin (hemail : email ≠ "") (hadmin : AdminKey c key) :
    (requireField "email" email >>= fun _ => Admins.authenticate key >>= fun _ => x).on c
      = x.on c := by
  obtain ⟨account, hauth⟩ := hadmin
  rw [(readOnly_requireField _ _).on_ok (answer_requireField hemail c),
    (Admins.readOnly_authenticate key).on_ok hauth]

/-- Nothing is done without an email, or for anybody but an admin. -/
theorem forAdmin_cases (c : Contents) (email key : String) :
    (∃ e, (requireField "email" email >>= fun _ => Admins.authenticate key >>= fun _ => x).on c
      = (.error e, c)) ∨ email ≠ "" ∧ AdminKey c key := by
  cases hfield : (requireField "email" email).answer c with
  | error e => exact .inl ⟨e, (readOnly_requireField _ _).on_error hfield⟩
  | ok _ =>
    rw [(readOnly_requireField _ _).on_ok hfield]
    cases hauth : (Admins.authenticate key).answer c with
    | error e => exact .inl ⟨e, (Admins.readOnly_authenticate key).on_error hauth⟩
    | ok account => exact .inr ⟨ne_empty_of_requireField hfield, account, hauth⟩

end Admin

/-! ### Faults that do not fire -/

theorem steady_bootstrapAdmin (moment : Moment) (email password : String) :
    (bootstrapAdmin moment email password).Steady := by
  apply (Admins.readOnly_ofEmail email).steady.andThen
  intro r
  rcases r with e | account
  · cases e with
    | notFound _ =>
      exact (Admins.steady_create moment.now email password).bind fun _ => (readOnly_pure _).steady
    | _ => exact (readOnly_throw _).steady
  · exact (readOnly_pure _).steady

theorem steady_deleteUser (moment : Moment) (proof : DeletionProof) (email : String) :
    (deleteUser moment proof email).Steady :=
  (readOnly_requireField _ _).steady.bind fun _ =>
    (readOnly_checkProof proof email).steady.bind fun _ =>
      (IdentitySpace.atomic_delete users email).steady.bind fun _ =>
        (Sessions.atomic_clear email).steady.bind fun _ =>
          (Objects.steady_deleteAllIn moment.listing email).bind fun _ => (readOnly_pure _).steady

/-- Only a fault that fires makes a difference to an operation. -/
theorem steady_run (op : Operation) (moment : Moment) : (op.run moment).Steady := by
  have hvalidate : ∀ email key, (validate moment email key).Steady := fun email key =>
    (Sessions.atomic_validate moment.now moment.window email key).steady
  cases op with
  | bootstrapAdmin email password =>
    exact Steady.map (steady_bootstrapAdmin moment email password) _
  | checkAdmin key => exact Steady.map (Admins.readOnly_authenticate key).steady _
  | createAdmin key email password =>
    exact Steady.map ((readOnly_requireField _ _).steady.bind fun _ =>
      (Admins.readOnly_authenticate key).steady.bind fun _ =>
        Admins.steady_create moment.now email password) _
  | deleteAdmin key => exact Steady.map (Admins.steady_delete key) _
  | createUser key email password =>
    exact Steady.map ((readOnly_requireField _ _).steady.bind fun _ =>
      (Admins.readOnly_authenticate key).steady.bind fun _ =>
        (IdentitySpace.atomic_createSeeded users email password _).steady.bind fun _ =>
          (readOnly_pure _).steady) _
  | deleteUser proof email => exact Steady.map (steady_deleteUser moment proof email) _
  | login email password =>
    exact Steady.map ((readOnly_requireField _ _).steady.bind fun _ =>
      (Sessions.atomic_login moment.now moment.window email password).steady) _
  | validate email key => exact Steady.map (hvalidate email key) _
  | logout email key =>
    exact Steady.map (Sessions.steady_logout moment.now moment.window email key) _
  | putObject email key id payload =>
    exact Steady.map ((readOnly_requireField _ _).steady.bind fun _ =>
      (hvalidate email key).bind fun _ => (Objects.atomic_put id payload email).steady) _
  | getObject email key id =>
    exact Steady.map ((hvalidate email key).bind fun _ => (Objects.readOnly_get id email).steady) _
  | deleteObject email key id =>
    exact Steady.map ((hvalidate email key).bind fun _ => (Objects.atomic_delete id email).steady) _

end Service

end AuthVault
