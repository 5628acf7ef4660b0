import AuthVault.Proofs.Object.Veil
import AuthVault.Proofs.Service.Authority
import AuthVault.Proofs.Service.Integrity

/-!
# Payloads are for their owner

Two services whose contents differ in payloads of objects of one owner at most cannot be told apart
without reading as that owner: whatever else they are asked for, in whatever order, they answer
alike, and their contents differ in no more than that afterwards (`alike_runAll`). Only operations on
objects come near a payload, and those are blind to it (`Objects.blind_put`, `Objects.blind_get`,
`Objects.blind_delete`, `Objects.blind_deleteAllIn`); everything else uses other namespaces. So each
operation is blind (`blind_run`), and a run is by induction on the operations.
-/

namespace AuthVault

open AuthVault.Action Contents
open IdentitySpace (users admins)

variable {owner : String}

/-! ### Accounts -/

namespace IdentitySpace

variable (identities : IdentitySpace)

theorem blind_load (email : String) : Blind owner (identities.load email) :=
  Backend.blind_getRecord (by cases identities <;> decide) _

theorem blind_get (email : String) : Blind owner (identities.get email) := by
  apply (blind_load identities email).bind
  intro found
  cases found with
  | none => exact blind_throw _
  | some account => exact blind_pure _

theorem blind_checkPassword (email password : String) :
    Blind owner (identities.checkPassword email password) := by
  apply (blind_get identities email).bind
  intro account
  cases account.credential.verify password with
  | true => exact blind_pure ()
  | false => exact blind_throw _

theorem blind_insert (account : Account) : Blind owner (identities.insert account) := by
  apply (blind_load identities account.email).bind
  intro found
  cases found with
  | none => exact Backend.blind_put _ _ _
  | some found => exact blind_throw _

theorem blind_delete (email : String) : Blind owner (identities.delete email) := by
  apply (blind_load identities email).bind
  intro found
  cases found with
  | none => exact blind_throw _
  | some found => exact Backend.blind_delete _ _

end IdentitySpace

namespace Admins

theorem blind_ofEmail (email : String) : Blind owner (ofEmail email) :=
  (admins.blind_get email).mapError _

theorem blind_authenticate (key : String) : Blind owner (authenticate key) := by
  unfold authenticate
  by_cases hkey : key = ""
  · rw [if_pos hkey]
    exact blind_throw _
  rw [if_neg hkey]
  apply (Backend.blind_get (by decide) _).bind
  intro entry
  cases entry with
  | none => exact blind_throw _
  | some entry =>
    cases htext : Bytes.text? entry with
    | none => simpa only [htext] using blind_throw _
    | some email =>
      simp only [htext]
      apply ((admins.blind_get email).mapError _).bind
      intro account
      split
      · exact blind_throw _
      · exact blind_pure _

theorem blind_create (now : Instant) (email password : String) :
    Blind owner (create now email password) := by
  rw [create_eq]
  apply (admins.blind_insert _).bind
  intro _
  apply (Backend.blind_put _ _ _).andThen
  intro r
  cases r with
  | ok _ => exact blind_pure _
  | error e => exact (admins.blind_delete email).bind fun _ => blind_throw e

theorem blind_delete (key : String) : Blind owner (delete key) :=
  (blind_authenticate key).bind fun account =>
    (admins.blind_delete account.email).bind fun _ => Backend.blind_delete _ _

end Admins

/-! ### Sessions -/

namespace Sessions

variable {now : Instant} {window : Duration}

theorem blind_get (email : String) : Blind owner (get email) := Backend.blind_getRecord (by decide) _

theorem blind_login (email password : String) : Blind owner (login now window email password) :=
  (users.blind_checkPassword email password).bind fun _ =>
    (Backend.blind_put _ _ _).bind fun _ => blind_pure _

theorem blind_validate (email key : String) : Blind owner (validate now window email key) := by
  rw [validate_eq]
  apply (blind_get email).bind
  intro found
  cases found with
  | none => exact blind_throw _
  | some session =>
    simp only [use]
    split
    · exact blind_throw _
    · split
      · exact blind_throw _
      · exact Backend.blind_put _ _ _

theorem blind_clear (email : String) : Blind owner (clear email) := by
  rw [clear_eq]
  apply (blind_get email).bind
  intro found
  cases found with
  | none => exact blind_pure _
  | some session => exact (Backend.blind_delete _ _).bind fun _ => blind_pure _

end Sessions

/-! ### Operations -/

namespace Service

variable {moment : Moment}

theorem blind_requireField (name value : String) : Blind owner (requireField name value) := by
  unfold requireField
  split
  · exact blind_throw _
  · exact blind_pure _

theorem blind_bootstrapAdmin (email password : String) :
    Blind owner (bootstrapAdmin moment email password) := by
  apply (Admins.blind_ofEmail email).andThen
  intro r
  cases r with
  | ok account => exact blind_pure _
  | error e =>
    cases e with
    | notFound _ =>
      exact (Admins.blind_create moment.now email password).bind fun _ => blind_pure _
    | _ => exact blind_throw _

theorem blind_deleteUser (proof : DeletionProof) (email : String) :
    Blind owner (deleteUser moment proof email) := by
  have hproof : Blind owner (checkProof proof email) := by
    cases proof with
    | adminKey key => exact (Admins.blind_authenticate key).bind fun _ => blind_pure _
    | password password => exact users.blind_checkPassword email password
  exact (blind_requireField _ _).bind fun _ => hproof.bind fun _ =>
    (users.blind_delete email).bind fun _ => (Sessions.blind_clear email).bind fun _ =>
      (Objects.blind_deleteAllIn moment.listing email).bind fun _ => blind_pure _

/-- Every operation is blind but reading as the owner. -/
theorem blind_run (op : Operation) (moment : Moment) (hop : ∀ key id, op ≠ .getObject owner key id) :
    Blind owner (op.run moment) := by
  have hvalidate : ∀ email key, Blind owner (validate moment email key) := fun email key =>
    Sessions.blind_validate email key
  cases op with
  | bootstrapAdmin email password => exact Blind.map (blind_bootstrapAdmin email password) _
  | checkAdmin key => exact Blind.map (Admins.blind_authenticate key) _
  | createAdmin key email password =>
    exact Blind.map ((blind_requireField _ _).bind fun _ =>
      (Admins.blind_authenticate key).bind fun _ =>
        Admins.blind_create moment.now email password) _
  | deleteAdmin key => exact Blind.map (Admins.blind_delete key) _
  | createUser key email password =>
    exact Blind.map ((blind_requireField _ _).bind fun _ =>
      (Admins.blind_authenticate key).bind fun _ =>
        ((users.blind_insert _).bind fun _ => blind_pure _).bind fun _ => blind_pure _) _
  | deleteUser proof email => exact Blind.map (blind_deleteUser proof email) _
  | login email password =>
    exact Blind.map ((blind_requireField _ _).bind fun _ => Sessions.blind_login email password) _
  | validate email key => exact Blind.map (hvalidate email key) _
  | logout email key =>
    exact Blind.map ((hvalidate email key).bind fun _ => Backend.blind_delete _ _) _
  | putObject email key id payload =>
    exact Blind.map ((blind_requireField _ _).bind fun _ =>
      (hvalidate email key).bind fun _ => Objects.blind_put id payload email) _
  | getObject email key id =>
    have hemail : email ≠ owner := fun heq => hop key id (heq ▸ rfl)
    exact Blind.map ((hvalidate email key).bind fun _ => Objects.blind_get hemail id) _
  | deleteObject email key id =>
    exact Blind.map ((hvalidate email key).bind fun _ => Objects.blind_delete id email) _

/-! ### Runs -/

variable {b b' : Backend}

theorem alike_foldl (h : b.Alike owner b') (steps : List (Operation × Moment))
    (hsteps : ∀ step ∈ steps, ∀ key id, step.1 ≠ .getObject owner key id) :
    (runAll b steps).Alike owner (runAll b' steps) := by
  induction steps generalizing b b' with
  | nil => exact h
  | cons step steps ih =>
    have hstep := blind_run step.1 step.2 (hsteps step List.mem_cons_self)
    exact ih (hstep b b' h).2 fun next hnext => hsteps next (List.mem_cons_of_mem _ hnext)

/-- Where nobody reads as the owner, runs that begin with backends alike are alike at each step, and
every operation answers the same in both. -/
theorem alike_runAll (h : b.Alike owner b') (steps : List (Operation × Moment))
    (hsteps : ∀ step ∈ steps, ∀ key id, step.1 ≠ .getObject owner key id) :
    (∀ past next rest, steps = past ++ next :: rest →
      ((next.1.run next.2).run (runAll b' past)).1 = ((next.1.run next.2).run (runAll b past)).1) ∧
      ∀ past rest, steps = past ++ rest → (runAll b past).Alike owner (runAll b' past) := by
  have hpast : ∀ past rest, steps = past ++ rest →
      (runAll b past).Alike owner (runAll b' past) := by
    rintro past rest rfl
    exact alike_foldl h past fun step hstep => hsteps step (List.mem_append_left rest hstep)
  refine ⟨fun past next rest heq => ?_, hpast⟩
  have hnext : next ∈ steps := heq ▸ List.mem_append_right past List.mem_cons_self
  exact (blind_run next.1 next.2 (hsteps next hnext) _ _ (hpast past (next :: rest) heq)).1

/-- A user with a session and a note. -/
def noted (payload : Bytes) : Contents :=
  visited.write Objects.space (Bytes.ofText "note")
    (Record.encode (⟨"note", payload, ⟨"ann"⟩⟩ : StoredObject))

theorem alike_noted (payload payload' : Bytes) :
    Backend.Alike "ann" ⟨noted payload, []⟩ ⟨noted payload', []⟩ := by
  have hhas : visited.Has Objects.space := (has_write _ _).2 ((has_initial _).2 (by decide))
  have howner : (⟨"note", payload, ⟨"ann"⟩⟩ : StoredObject).owner = "ann" := rfl
  exact ⟨Veiled.of_write hhas (Bytes.ofText "note") howner payload', rfl⟩

/-- The owner overwrites the note, and someone else asks for it. -/
theorem alike_runAll_noted :
    let moment : Moment := .first
    let steps : List (Operation × Moment) :=
      [(.putObject "ann" "key" "note" [3], moment), (.getObject "eve" "key" "note", moment)]
    Backend.Alike "ann" ⟨noted [1], []⟩ ⟨noted [2], []⟩ ∧
      (∀ step ∈ steps, ∀ key id, step.1 ≠ .getObject "ann" key id) ∧
      (((Operation.putObject "ann" "key" "note" [3]).run moment).run ⟨noted [2], []⟩).1
        = (((Operation.putObject "ann" "key" "note" [3]).run moment).run ⟨noted [1], []⟩).1 ∧
      (runAll ⟨noted [1], []⟩ steps).Alike "ann" (runAll ⟨noted [2], []⟩ steps) := by
  intro moment steps
  have hsteps : ∀ step ∈ steps, ∀ key id, step.1 ≠ .getObject "ann" key id := by
    intro step hstep key id heq
    rcases List.mem_cons.1 hstep with rfl | hstep
    · contradiction
    · rw [List.mem_singleton.1 hstep] at heq
      exact absurd (Operation.getObject.inj heq).1 (by decide)
  obtain ⟨hanswer, halike⟩ := alike_runAll (alike_noted [1] [2]) steps hsteps
  exact ⟨alike_noted [1] [2], hsteps, hanswer [] _ _ rfl, halike steps [] (List.append_nil _).symm⟩

end Service

end AuthVault
