import AuthVault.Proofs.Backend.Footprint
import AuthVault.Proofs.Service.Authority

/-!
# Users do not get in each other's way

What is done for a user reads and changes the account and the session of the user's email, and the
object that it names (`Reach`); that is so for every operation, whether it succeeds or fails
(`local_run`), as long as sessions carry the email under which they are stored, since a use stores the
session anew under the email that it carries. So operations for two users commute, unless they name
the same object (`run_commutes`).
-/

namespace AuthVault

open AuthVault.Action Contents
open IdentitySpace (users)

variable {α : Type} {F : String → Bytes → Prop} {c : Contents} {now : Instant} {window : Duration}
  {email key id : String}

namespace IdentitySpace

theorem local_checkPassword (space : IdentitySpace) (h : F space.name (Bytes.ofText email))
    (password : String) (c : Contents) : Local F (space.checkPassword email password) c :=
  local_of_readOnly (readOnly_checkPassword space email password) fun _ hagree =>
    answer_checkPassword_congr (Backend.answer_getRecord_of_differ hagree (not_not_intro h))

end IdentitySpace

namespace Sessions

theorem local_store {session : Session} (h : F space (Bytes.ofText session.email)) (c : Contents) :
    Local F (store session) c :=
  Backend.local_put h _ c

theorem local_login (huser : F users.name (Bytes.ofText email))
    (hsession : F space (Bytes.ofText email)) (password : String) (c : Contents) :
    Local F (login now window email password) c := by
  rw [login_eq]
  refine (users.local_checkPassword huser password c).then
    (IdentitySpace.readOnly_checkPassword _ _ _) fun _ _ => ?_
  rw [bind_pure_comp]
  exact (local_store hsession c).map _

/-- A use keeps to the session of its email, if that carries the email. -/
theorem local_validate (h : F space (Bytes.ofText email))
    (hcarries : ∀ session, (get email).answer c = .ok (some session) → session.email = email)
    (key : String) : Local F (validate now window email key) c := by
  rw [validate_eq]
  refine (Backend.local_getRecord h c).then (readOnly_get email) fun found hfound => ?_
  cases found with
  | none => exact local_throw _ c
  | some session =>
    show Local F (use now window email key session) c
    unfold use
    split
    · exact local_throw _ c
    · split
      · exact local_throw _ c
      · exact local_store (hcarries session hfound ▸ h) c

/-- What comes after a use of a session finds other contents. -/
theorem local_gated {x : Action α} (h : F space (Bytes.ofText email))
    (hcarries : ∀ session, (get email).answer c = .ok (some session) → session.email = email)
    (hx : ∀ c₁, Local F x c₁) (key : String) :
    Local F (validate now window email key >>= fun _ => x) c :=
  (local_validate h hcarries key).bind (atomic_validate now window email key).steady
    fun _ c₁ _ => hx c₁

end Sessions

namespace Objects

theorem local_store {object : StoredObject} (h : F space (Bytes.ofText object.id)) (c : Contents) :
    Local F (store object) c :=
  (Backend.local_put h _ c).map _

theorem local_load_forOwner {caller : String} {absent : Action α} {present : StoredObject → Action α}
    (h : F space (Bytes.ofText id)) (habsent : Local F absent c)
    (hpresent : ∀ object, Local F (present object) c) :
    Local F (load id >>= forOwner caller absent present) c := by
  refine (Backend.local_getRecord h c).then (readOnly_load id) fun found _ => ?_
  cases found with
  | none => exact habsent
  | some object =>
    rw [forOwner]
    split
    · exact hpresent object
    · exact local_throw _ c

variable (h : F space (Bytes.ofText id))
include h

theorem local_put (payload : Bytes) (caller : String) (c : Contents) :
    Local F (put id payload caller) c := by
  rw [put_eq]
  exact local_load_forOwner h (local_store h c) fun _ => local_store h c

theorem local_get (caller : String) (c : Contents) : Local F (get id caller) c := by
  rw [get_eq]
  exact local_load_forOwner h (local_throw _ c) fun object => local_pure object c

theorem local_delete (caller : String) (c : Contents) : Local F (delete id caller) c := by
  rw [delete_eq]
  exact local_load_forOwner h (local_pure _ c) fun _ => Backend.local_delete h c

end Objects

namespace Service

/-- The user for whom an operation is done that neither registers nor deletes anybody. -/
def Operation.caller? : Operation → Option String
  | .login email _ | .validate email _ | .logout email _ | .putObject email _ _ _
  | .getObject email _ _ | .deleteObject email _ _ => some email
  | _ => none

/-- The id of the object that an operation names. -/
def Operation.object? : Operation → Option String
  | .putObject _ _ id _ | .getObject _ _ id | .deleteObject _ _ id => some id
  | _ => none

/-- The entries that an operation for a user may read or change. -/
inductive Reach (email : String) (id? : Option String) : String → Bytes → Prop
  | account : Reach email id? users.name (Bytes.ofText email)
  | session : Reach email id? Sessions.space (Bytes.ofText email)
  | object {id : String} (named : id? = some id) : Reach email id? Objects.space (Bytes.ofText id)

/-- Two users reach the same entry only through an object that both name. -/
theorem Reach.apart {email email' : String} {id? id'? : Option String} (hne : email ≠ email')
    (hids : ∀ id, id? = some id → id'? ≠ some id) {s : String} {k : Bytes}
    (h : Reach email id? s k) : ¬ Reach email' id'? s k := by
  intro h'
  cases h with
  | account =>
    generalize hs : users.name = s at h'
    generalize hk : Bytes.ofText email = k at h'
    cases h' with
    | account => exact hne (Bytes.ofText_inj.1 hk)
    | session => exact absurd hs (by decide)
    | object _ => exact absurd hs (by decide)
  | session =>
    generalize hs : Sessions.space = s at h'
    generalize hk : Bytes.ofText email = k at h'
    cases h' with
    | account => exact absurd hs (by decide)
    | session => exact hne (Bytes.ofText_inj.1 hk)
    | object _ => exact absurd hs (by decide)
  | @object id named =>
    generalize hs : Objects.space = s at h'
    generalize hk : Bytes.ofText id = k at h'
    cases h' with
    | account => exact absurd hs (by decide)
    | session => exact absurd hs (by decide)
    | object named' => exact hids id named (Bytes.ofText_inj.1 hk ▸ named')

theorem local_requireField (name value : String) (c : Contents) :
    Local F (requireField name value) c := by
  unfold requireField
  split
  · exact local_throw _ c
  · exact local_pure _ c

/-- An operation keeps to what its user may reach. -/
theorem local_run {op : Operation} (hop : op.caller? = some email) (moment : Moment)
    (hcarries : ∀ session, (Sessions.get email).answer c = .ok (some session) →
      session.email = email) :
    Local (Reach email op.object?) (op.run moment) c := by
  cases op with
  | login _ password =>
    obtain rfl := Option.some.inj hop
    refine Local.map ((local_requireField _ _ c).then (readOnly_requireField _ _) fun _ _ => ?_) _
    exact Sessions.local_login .account .session password c
  | validate _ key =>
    obtain rfl := Option.some.inj hop
    exact Local.map (Sessions.local_validate .session hcarries key) _
  | logout _ key =>
    obtain rfl := Option.some.inj hop
    exact Local.map (Sessions.local_gated .session hcarries (Backend.local_delete .session) key) _
  | putObject _ key id payload =>
    obtain rfl := Option.some.inj hop
    refine Local.map ((local_requireField _ _ c).then (readOnly_requireField _ _) fun _ _ => ?_) _
    exact Sessions.local_gated .session hcarries (Objects.local_put (.object rfl) payload _) key
  | getObject _ key id =>
    obtain rfl := Option.some.inj hop
    exact Local.map
      (Sessions.local_gated .session hcarries (Objects.local_get (.object rfl) _) key) _
  | deleteObject _ key id =>
    obtain rfl := Option.some.inj hop
    exact Local.map
      (Sessions.local_gated .session hcarries (Objects.local_delete (.object rfl) _) key) _
  | _ => cases hop

/-- Of two operations for different users that do not name the same object, each has the same result
and both together leave the same backend, whichever is done first. -/
theorem run_commutes {op op' : Operation} {email email' : String} (moment : Moment) (c : Contents)
    (hsessions : ∀ email session, (Sessions.get email).answer c = .ok (some session) →
      session.email = email)
    (hop : op.caller? = some email) (hop' : op'.caller? = some email') (hne : email ≠ email')
    (hids : ∀ id, op.object? = some id → op'.object? ≠ some id) :
    let first := (op.run moment).run ⟨c, []⟩
    let first' := (op'.run moment).run ⟨c, []⟩
    ((op.run moment).run first'.2).1 = first.1 ∧ ((op'.run moment).run first.2).1 = first'.1 ∧
      ((op'.run moment).run first.2).2 = ((op.run moment).run first'.2).2 := by
  have hlocal : Local (Reach email op.object?) (op.run moment) c :=
    local_run hop moment (hsessions email)
  have hlocal' : Local (Reach email' op'.object?) (op'.run moment) c :=
    local_run hop' moment (hsessions email')
  have hapart : Apart (op.run moment) (op'.run moment) c :=
    .of_local hlocal hlocal' fun _ _ h => h.apart hne hids
  exact hapart.run (steady_run op moment) (steady_run op' moment)

/-- A note that a user stores, and one that somebody asks for who has no session. -/
theorem run_commutes_visited :
    let moment : Moment := .first
    let put := (Operation.putObject "ann" "key" "note" [1]).run moment
    let get := (Operation.getObject "eve" "key" "memo").run moment
    (put.run (get.run ⟨visited, []⟩).2).1 = (put.run ⟨visited, []⟩).1 ∧
      (get.run (put.run ⟨visited, []⟩).2).1 = (get.run ⟨visited, []⟩).1 ∧
      (get.run (put.run ⟨visited, []⟩).2).2 = (put.run (get.run ⟨visited, []⟩).2).2 :=
  run_commutes .first visited (fun _ _ h => email_of_get_visited h) rfl rfl
    (by decide) (by decide)

end Service

end AuthVault
