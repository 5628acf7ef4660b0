import AuthVault.Proofs.Account
import AuthVault.Proofs.Record
import Mathlib.Logic.Function.Basic

/-!
# The identity spaces as maps

Where no fault is armed and nothing else writes into their namespaces, the users and the admins
answer every interleaving of requests as two maps from emails to accounts do, each of which knows
the requests to its own space only (`reply_interleaved`). The argument is a simulation: the accounts
found in the two spaces are those of the two maps (`Mirrors`), a request to one space keeps it so,
as far as the other space is concerned because their entries are never the same (`load_write`,
`load_remove`), and so do all of them (`mirrors_after`).

What the map does to one email (`Roster.step_snd_apply`) tells where an account comes from: it is the
record left by the latest request that succeeded in changing the email (`latest`).
-/

namespace AuthVault.IdentitySpace

open AuthVault.Action Contents

/-! ### Requests -/

/-- The requests to one space of identities. -/
inductive Request
  | createSeeded (email password seed : String)
  | insert (account : Account)
  | replace (account : Account)
  | get (email : String)
  | isRegistered (email : String)
  | delete (email : String)
  | checkPassword (email password : String)

inductive Reply
  | account (account : Account)
  | registered (known : Bool)
  | done

namespace Request

def run (space : IdentitySpace) : Request → Action Reply
  | createSeeded email password seed => .account <$> space.createSeeded email password seed
  | insert account => (fun _ => .done) <$> space.insert account
  | replace account => (fun _ => .done) <$> space.replace account
  | get email => .account <$> space.get email
  | isRegistered email => .registered <$> space.isRegistered email
  | delete email => (fun _ => .done) <$> space.delete email
  | checkPassword email password => (fun _ => .done) <$> space.checkPassword email password

/-- The email that a request is about. -/
def email : Request → String
  | createSeeded email _ _ | get email | isRegistered email | delete email
  | checkPassword email _ => email
  | insert account | replace account => account.email

/-- What a request leaves under its email when it succeeds, if it changes anything. -/
def leaves? : Request → Option (Option Account)
  | createSeeded email password seed => some (some ⟨email, .register password seed, none⟩)
  | insert account | replace account => some (some account)
  | delete _ => some none
  | get _ | isRegistered _ | checkPassword _ _ => none

/-- The error with which a request is refused, given the account under its email. -/
def refusal? : Request → Option Account → Option AuthError
  | createSeeded email _ _, some _ => some (.alreadyExists (accountSubject email))
  | insert account, some _ => some (.alreadyExists (accountSubject account.email))
  | replace account, none => some (.notFound (accountSubject account.email))
  | get email, none | delete email, none | checkPassword email _, none =>
    some (.notFound (accountSubject email))
  | checkPassword email password, some account =>
    if Credential.derive password account.credential.salt = account.credential.hash then none
    else some (.invalidCredential email)
  | _, _ => none

theorem readOnly_isRegistered (space : IdentitySpace) (email : String) :
    (space.isRegistered email).ReadOnly :=
  (readOnly_load space email).bind fun _ => readOnly_pure _

theorem atomic_run (space : IdentitySpace) (r : Request) : (r.run space).Atomic := by
  cases r with
  | createSeeded email password seed => exact (atomic_createSeeded space email password seed).map _
  | insert account => exact (atomic_insert space account).map _
  | replace account => exact (atomic_replace space account).map _
  | get email => exact (readOnly_get space email).atomic.map _
  | isRegistered email => exact (readOnly_isRegistered space email).atomic.map _
  | delete email => exact (atomic_delete space email).map _
  | checkPassword email password => exact (readOnly_checkPassword space email password).atomic.map _

end Request

/-- The backend that requests to the two spaces leave, the latest first, where no fault is armed in
the beginning. -/
def after (c : Contents) : (past : List (IdentitySpace × Request)) → Backend
  | [] => ⟨c, []⟩
  | (space, r) :: past => ((r.run space).run (after c past)).2

/-- What a space answers to a request after others to either space. -/
def reply (c : Contents) (past : List (IdentitySpace × Request)) (space : IdentitySpace)
    (r : Request) : Except AuthError Reply :=
  ((r.run space).run (after c past)).1

/-- The requests to one space among those to both. -/
def own (space : IdentitySpace) (past : List (IdentitySpace × Request)) : List Request :=
  past.filterMap fun p => if p.1 = space then some p.2 else none

/-- The record that the latest request that succeeded in changing an email has left under it. -/
def latest (c : Contents) (space : IdentitySpace) (email : String) :
    (past : List (IdentitySpace × Request)) → Option Account
  | [] => none
  | (space', r) :: past =>
    if space' = space ∧ r.email = email ∧ (reply c past space' r).isOk then
      r.leaves?.getD (latest c space email past)
    else latest c space email past

theorem own_cons_self (space : IdentitySpace) (r : Request)
    (past : List (IdentitySpace × Request)) : own space ((space, r) :: past) = r :: own space past :=
  List.filterMap_cons_some (if_pos rfl)

theorem own_cons_of_ne {space space' : IdentitySpace} (h : space' ≠ space) (r : Request)
    (past : List (IdentitySpace × Request)) : own space ((space', r) :: past) = own space past :=
  List.filterMap_cons_none (if_neg h)

/-! ### The map -/

/-- The accounts of one space. -/
abbrev Roster := String → Option Account

namespace Roster

open Function (update)

/-- What the map answers to a request, and the map afterwards. -/
def step (m : Roster) : Request → Except AuthError Reply × Roster
  | .createSeeded email password seed =>
    let account : Account := ⟨email, .register password seed, none⟩
    match m email with
    | none => (.ok (.account account), update m email (some account))
    | some _ => (.error (.alreadyExists (accountSubject email)), m)
  | .insert account =>
    match m account.email with
    | none => (.ok .done, update m account.email (some account))
    | some _ => (.error (.alreadyExists (accountSubject account.email)), m)
  | .replace account =>
    match m account.email with
    | none => (.error (.notFound (accountSubject account.email)), m)
    | some _ => (.ok .done, update m account.email (some account))
  | .get email =>
    match m email with
    | none => (.error (.notFound (accountSubject email)), m)
    | some account => (.ok (.account account), m)
  | .isRegistered email => (.ok (.registered (m email).isSome), m)
  | .delete email =>
    match m email with
    | none => (.error (.notFound (accountSubject email)), m)
    | some _ => (.ok .done, update m email none)
  | .checkPassword email password =>
    match m email with
    | none => (.error (.notFound (accountSubject email)), m)
    | some account =>
      if Credential.derive password account.credential.salt = account.credential.hash then
        (.ok .done, m)
      else (.error (.invalidCredential email), m)

/-- The map after requests, the latest first, to the empty one. -/
def after : (past : List Request) → Roster
  | [] => fun _ => none
  | r :: past => ((after past).step r).2

/-- The map refuses a request for what it has under the email of the request. -/
theorem step_eq_error_iff (m : Roster) (r : Request) (e : AuthError) :
    (m.step r).1 = .error e ↔ r.refusal? (m r.email) = some e := by
  cases r with
  | createSeeded email password seed | get email | delete email =>
    cases hfound : m email <;> simp [step, Request.refusal?, Request.email, hfound]
  | insert account | replace account =>
    cases hfound : m account.email <;> simp [step, Request.refusal?, Request.email, hfound]
  | isRegistered email => simp [step, Request.refusal?]
  | checkPassword email password =>
    cases hfound : m email with
    | none => simp [step, Request.refusal?, Request.email, hfound]
    | some account =>
      simp only [step, Request.refusal?, Request.email, hfound]
      split <;> simp

theorem step_snd_of_reads (m : Roster) {r : Request} (h : r.leaves? = none) : (m.step r).2 = m := by
  cases r with
  | get email | checkPassword email password =>
    simp only [step]
    repeat' split
    all_goals rfl
  | isRegistered email => rfl
  | createSeeded | insert | replace | delete => contradiction

/-- A request that succeeds changes the map under its own email, one that is refused not at all. -/
theorem step_snd (m : Roster) (r : Request) :
    (m.step r).2 =
      if (m.step r).1.isOk then update m r.email (r.leaves?.getD (m r.email)) else m := by
  cases hleaves : r.leaves? with
  | none => rw [step_snd_of_reads m hleaves, Option.getD_none, Function.update_eq_self, ite_self]
  | some found =>
    cases r with
    | createSeeded email password seed | delete email =>
      obtain rfl := Option.some.inj hleaves
      cases hold : m email <;> simp [step, Request.email, hold, Except.isOk, Except.toBool]
    | insert account | replace account =>
      obtain rfl := Option.some.inj hleaves
      cases hold : m account.email <;> simp [step, Request.email, hold, Except.isOk, Except.toBool]
    | get | isRegistered | checkPassword => contradiction

end Roster

/-! ### The spaces and the maps -/

section Loads

variable {c : Contents} {space : IdentitySpace}

theorem name_inj {space' : IdentitySpace} : space'.name = space.name ↔ space' = space := by
  cases space <;> cases space' <;> decide

/-- A record written under its email is found there, and nowhere else. -/
theorem load_write (h : c.Has space.name) (account : Account) (space' : IdentitySpace)
    (email : String) :
    (space'.load email).answer
        (c.write space.name (Bytes.ofText account.email) (Record.encode account)) =
      if space' = space ∧ email = account.email then .ok (some account)
      else (space'.load email).answer c := by
  by_cases heq : space' = space ∧ email = account.email
  · rw [if_pos heq, heq.1, heq.2]
    exact Backend.answer_getRecord_write h account
  · rw [if_neg heq]
    exact Backend.answer_getRecord_write_of_ne fun h =>
      heq ⟨name_inj.1 h.1, Bytes.ofText_inj.1 h.2⟩

theorem load_remove (h : c.Has space.name) (email : String) (space' : IdentitySpace)
    (email' : String) :
    (space'.load email').answer (c.remove space.name (Bytes.ofText email)) =
      if space' = space ∧ email' = email then .ok none else (space'.load email').answer c := by
  by_cases heq : space' = space ∧ email' = email
  · rw [if_pos heq, heq.1, heq.2]
    exact Backend.answer_getRecord_remove h
  · rw [if_neg heq]
    exact Backend.answer_getRecord_remove_of_ne fun h =>
      heq ⟨name_inj.1 h.1, Bytes.ofText_inj.1 h.2⟩

end Loads

/-- The accounts found in each space are those of its map. -/
def Mirrors (c : Contents) (m : IdentitySpace → Roster) : Prop :=
  ∀ (space : IdentitySpace) (email : String), (space.load email).answer c = .ok (m space email)

namespace Mirrors

open Function (update)

variable {c : Contents} {m : IdentitySpace → Roster}

theorem empty (hhas : ∀ space : IdentitySpace, c.Has space.name)
    (hempty : ∀ (space : IdentitySpace) key, c.value? space.name key = none) :
    Mirrors c fun _ _ => none :=
  fun space _ => Backend.answer_getRecord_eq_none_iff.2 ⟨hhas space, .inl (hempty space _)⟩

theorem has (h : Mirrors c m) (space : IdentitySpace) : c.Has space.name :=
  Backend.has_of_answer_getRecord (h space "")

theorem write (h : Mirrors c m) (space : IdentitySpace) (account : Account) :
    Mirrors (c.write space.name (Bytes.ofText account.email) (Record.encode account))
      (update m space (update (m space) account.email (some account))) := by
  intro space' email
  rw [load_write (h.has space), h space' email]
  by_cases hspace : space' = space
  · subst hspace
    rw [Function.update_self, Function.update_apply]
    by_cases hemail : email = account.email
    · rw [if_pos ⟨rfl, hemail⟩, if_pos hemail]
    · rw [if_neg fun heq => hemail heq.2, if_neg hemail]
  · rw [Function.update_of_ne hspace, if_neg fun heq => hspace heq.1]

theorem remove (h : Mirrors c m) (space : IdentitySpace) (email : String) :
    Mirrors (c.remove space.name (Bytes.ofText email))
      (update m space (update (m space) email none)) := by
  intro space' email'
  rw [load_remove (h.has space), h space' email']
  by_cases hspace : space' = space
  · subst hspace
    rw [Function.update_self, Function.update_apply]
    by_cases hemail : email' = email
    · rw [if_pos ⟨rfl, hemail⟩, if_pos hemail]
    · rw [if_neg fun heq => hemail heq.2, if_neg hemail]
  · rw [Function.update_of_ne hspace, if_neg fun heq => hspace heq.1]

theorem keep (h : Mirrors c m) (space : IdentitySpace) :
    Mirrors c (update m space (m space)) := by
  rwa [Function.update_eq_self]

/-- A space answers a request as its map does; afterwards its accounts are those that the map says,
and those of the other space are the same. -/
theorem run (h : Mirrors c m) (space : IdentitySpace) (r : Request) :
    ((r.run space).on c).1 = ((m space).step r).1 ∧
      Mirrors ((r.run space).on c).2 (update m space ((m space).step r).2) := by
  cases r with
  | createSeeded email password seed =>
    rw [Request.run, on_map, on_createSeeded, h space email, Roster.step]
    cases m space email with
    | none => exact ⟨rfl, h.write space ⟨email, .register password seed, none⟩⟩
    | some found => exact ⟨rfl, h.keep space⟩
  | insert account =>
    rw [Request.run, on_map, on_insert, h space account.email, Roster.step]
    cases m space account.email with
    | none => exact ⟨rfl, h.write space account⟩
    | some found => exact ⟨rfl, h.keep space⟩
  | replace account =>
    rw [Request.run, on_map, on_replace, h space account.email, Roster.step]
    cases m space account.email with
    | none => exact ⟨rfl, h.keep space⟩
    | some found => exact ⟨rfl, h.write space account⟩
  | get email =>
    rw [Request.run, on_map, (readOnly_get space email).on_eq, answer_get, h space email,
      Roster.step]
    cases m space email <;> exact ⟨rfl, h.keep space⟩
  | isRegistered email =>
    have hload : (space.isRegistered email).on c = (.ok (m space email).isSome, c) :=
      (readOnly_load space email).on_ok (h space email)
    rw [Request.run, on_map, hload]
    exact ⟨rfl, h.keep space⟩
  | delete email =>
    rw [Request.run, on_map, on_delete, h space email, Roster.step]
    cases m space email with
    | none => exact ⟨rfl, h.keep space⟩
    | some found => exact ⟨rfl, h.remove space email⟩
  | checkPassword email password =>
    rw [Request.run, on_map, (readOnly_checkPassword space email password).on_eq,
      answer_checkPassword, h space email, Roster.step]
    cases m space email with
    | none => exact ⟨rfl, h.keep space⟩
    | some account =>
      simp only [Credential.verify, beq_iff_eq]
      split
      · exact ⟨rfl, h.keep space⟩
      · exact ⟨rfl, h.keep space⟩

end Mirrors

/-! ### Runs -/

/-- The maps of the two spaces after requests, each to its own ones. -/
def rosters (past : List (IdentitySpace × Request)) (space : IdentitySpace) : Roster :=
  Roster.after (own space past)

theorem rosters_cons (space : IdentitySpace) (r : Request)
    (past : List (IdentitySpace × Request)) :
    rosters ((space, r) :: past)
      = Function.update (rosters past) space ((rosters past space).step r).2 := by
  funext space'
  rw [rosters]
  by_cases hspace : space = space'
  · subst hspace
    rw [own_cons_self, Function.update_self]
    rfl
  · rw [own_cons_of_ne hspace, Function.update_of_ne (Ne.symm hspace)]
    rfl

section Runs

variable {c : Contents} (hhas : ∀ space : IdentitySpace, c.Has space.name)
  (hempty : ∀ (space : IdentitySpace) key, c.value? space.name key = none)

include hhas hempty

theorem mirrors_after (past : List (IdentitySpace × Request)) :
    ∃ c', after c past = ⟨c', []⟩ ∧ Mirrors c' (rosters past) := by
  induction past with
  | nil => exact ⟨c, rfl, .empty hhas hempty⟩
  | cons p past ih =>
    obtain ⟨space, r⟩ := p
    obtain ⟨c', hafter, hmirrors⟩ := ih
    rw [after, hafter, run_eq_on (r.atomic_run space).steady, rosters_cons]
    exact ⟨_, rfl, (hmirrors.run space r).2⟩

theorem reply_eq_step (past : List (IdentitySpace × Request)) (space : IdentitySpace)
    (r : Request) : reply c past space r = ((rosters past space).step r).1 := by
  obtain ⟨c', hafter, hmirrors⟩ := mirrors_after hhas hempty past
  rw [reply, hafter, run_fst]
  exact (hmirrors.run space r).1

/-- The map of a space has under an email what the latest request that succeeded left there. -/
theorem latest_eq (past : List (IdentitySpace × Request)) (space : IdentitySpace)
    (email : String) : latest c space email past = rosters past space email := by
  induction past with
  | nil => rfl
  | cons p past ih =>
    obtain ⟨space', r⟩ := p
    rw [latest, ih, reply_eq_step hhas hempty, rosters_cons]
    by_cases hspace : space' = space
    · subst hspace
      rw [Function.update_self, Roster.step_snd]
      by_cases hok : ((rosters past space').step r).1.isOk
      · rw [if_pos hok, Function.update_apply]
        by_cases hemail : r.email = email
        · rw [if_pos ⟨rfl, hemail, hok⟩, if_pos hemail.symm, hemail]
        · rw [if_neg fun heq => hemail heq.2.1, if_neg (Ne.symm hemail)]
      · rw [if_neg hok, if_neg fun heq => hok heq.2.2]
    · rw [Function.update_of_ne (Ne.symm hspace), if_neg fun heq => hspace heq.1]

theorem after_of_error {past : List (IdentitySpace × Request)} {space : IdentitySpace}
    {r : Request} {e : AuthError} (h : reply c past space r = .error e) :
    after c ((space, r) :: past) = after c past := by
  obtain ⟨c', hafter, -⟩ := mirrors_after hhas hempty past
  have hatomic := r.atomic_run space
  have hrun := run_eq_on hatomic.steady c'
  rw [reply, hafter] at h
  have hkept := hatomic.of_error h
  rw [after, hafter, hrun]
  rw [hrun] at hkept
  exact congrArg (Backend.mk · []) hkept

/-- From empty namespaces on, each space answers every request as a map does that knows the requests
to this space only. So a request is refused for what is under its email alone, then nothing changes,
and the account that is got is the record that was stored last. -/
theorem reply_interleaved (past : List (IdentitySpace × Request)) (space : IdentitySpace)
    (r : Request) :
    reply c past space r = ((Roster.after (own space past)).step r).1 ∧
      (∀ e, reply c past space r = .error e ↔
        r.refusal? (latest c space r.email past) = some e) ∧
      (∀ e, reply c past space r = .error e → after c ((space, r) :: past) = after c past) ∧
      ∀ email account, reply c past space (.get email) = .ok (.account account) ↔
        latest c space email past = some account := by
  refine ⟨reply_eq_step hhas hempty past space r, fun e => ?_,
    fun e herror => after_of_error hhas hempty herror, fun email account => ?_⟩
  · rw [reply_eq_step hhas hempty, latest_eq hhas hempty, Roster.step_eq_error_iff]
  · rw [reply_eq_step hhas hempty, latest_eq hhas hempty, Roster.step]
    cases rosters past space email <;> simp

end Runs

/-- One email registered in both spaces leads to two accounts, and each is got from its own space. -/
theorem reply_interleaved_ann :
    let c := (admins.setup.on (users.setup.on .empty).2).2
    let user : Account := ⟨"ann", .register "pass" "now", none⟩
    let admin : Account := ⟨"ann", .register "word" "then", some "key"⟩
    let past : List (IdentitySpace × Request) :=
      [(admins, .insert admin), (users, .createSeeded "ann" "pass" "now")]
    (∀ space : IdentitySpace, c.Has space.name) ∧
      (∀ (space : IdentitySpace) key, c.value? space.name key = none) ∧
      reply c past users (.get "ann") = .ok (.account user) ∧
      reply c past admins (.get "ann") = .ok (.account admin) := by
  intro c user admin past
  have hhas : ∀ space : IdentitySpace, c.Has space.name := by
    intro space
    cases space <;> exact ⟨_, rfl⟩
  have hempty : ∀ (space : IdentitySpace) key, c.value? space.name key = none := by
    intro space key
    cases space <;> rfl
  exact ⟨hhas, hempty, (reply_interleaved hhas hempty past users (.get "ann")).1.trans rfl,
    (reply_interleaved hhas hempty past admins (.get "ann")).1.trans rfl⟩

end AuthVault.IdentitySpace
