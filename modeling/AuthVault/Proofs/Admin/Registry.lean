import AuthVault.Proofs.Admin

/-!
# Keys left behind

Faults leave the accounts of admins and the index of their keys out of step: a key may lead to an
email without an account, or to an account that carries another key. Whatever has been requested
since the backend was empty and whichever faults have fired, a key authenticates only the account
stored under the email of that account, and only if the account carries it. A key that its account
has lost authenticates nobody of that email until a request stores an account of the email with the
key (`authenticate_after`).

No fault makes an account: one that is found after a request was there before it, or is the account
that the request brings (`Brings`). So it is for the calls that a request is made of, and thus for
the request, wherever it stops (`brings_run`).
-/

namespace AuthVault.Admins

open AuthVault.Action Contents
open IdentitySpace (admins)

variable {c : Contents} {b : Backend} {email key : String} {account : Account}
  {stored : Option Account}

/-! ### Requests -/

/-- The requests to the store of admins and to its accounts. -/
inductive Request
  | setup
  | create (now : Instant) (email password : String)
  | authenticate (key : String)
  | delete (key : String)
  | deleteByEmail (email : String)
  | insert (account : Account)
  | replace (account : Account)
  | deleteAccount (email : String)

def Request.run : Request → Action Unit
  | setup => Admins.setup
  | create now email password => (fun _ => ()) <$> Admins.create now email password
  | authenticate key => (fun _ => ()) <$> Admins.authenticate key
  | delete key => Admins.delete key
  | deleteByEmail email => Admins.deleteByEmail email
  | insert account => admins.insert account
  | replace account => admins.replace account
  | deleteAccount email => admins.delete email

/-- The account that a request is to store. -/
def Request.account? : Request → Option Account
  | create now email password => some (newAccount now email password)
  | insert account | replace account => some account
  | _ => none

/-- A request, or a fault that is armed. -/
inductive Step
  | call (request : Request)
  | arm (fault : Fault)

def Step.run : Step → Backend → Backend
  | call request, b => (request.run.run b).2
  | arm fault, b => b.arm fault

def Step.account? : Step → Option Account
  | call request => request.account?
  | arm _ => none

/-- What an empty backend has become by steps, the latest first. -/
def after : (past : List Step) → Backend
  | [] => .empty
  | step :: past => step.run (after past)

/-! ### Accounts that an action brings -/

section Brings

variable {α β : Type}

/-- An admin found after an action was there before, or is the one that the action is to store. -/
def Brings (stored : Option Account) (x : Action α) : Prop := ∀ b email account,
  (admins.load email).answer (x.run b).2.contents = .ok (some account) →
    (admins.load email).answer b.contents = .ok (some account) ∨
      stored = some account ∧ account.email = email

theorem Brings.andThen {x : Action α} {next : Except AuthError α → Action β}
    (hx : Brings stored x) (hnext : ∀ r, Brings stored (next r)) :
    Brings stored (x.andThen next) := by
  intro b email account hload
  rcases hnext _ _ email account hload with hbefore | hstored
  · exact hx b email account hbefore
  · exact .inr hstored

/-- An atomic action that adds no entry of an account brings none. -/
theorem brings_of_atomic {x : Action α} (hx : x.Atomic) (hon : ∀ c key value,
    (x.on c).2.value? admins.name key = some value → c.value? admins.name key = some value) :
    Brings stored x := by
  intro b email account hload
  left
  rcases hx.contents_cases b with hb | hb
  all_goals rw [hb] at hload
  · exact hload
  · obtain ⟨value, hvalue, hrest⟩ := Backend.answer_getRecord_eq_some_iff.1 hload
    exact Backend.answer_getRecord_eq_some_iff.2 ⟨value, hon _ _ _ hvalue, hrest⟩

theorem brings_of_readOnly {x : Action α} (hx : x.ReadOnly) : Brings stored x := by
  apply brings_of_atomic hx.atomic
  intro c key value hvalue
  rwa [hx.on_snd] at hvalue

theorem Brings.bind {x : Action α} {f : α → Action β} (hx : Brings stored x)
    (hf : ∀ a, Brings stored (f a)) : Brings stored (x >>= f) := by
  apply hx.andThen
  intro r
  cases r with
  | ok a => exact hf a
  | error e => exact brings_of_readOnly (readOnly_throw e)

theorem Brings.map {x : Action α} (hx : Brings stored x) (g : α → β) : Brings stored (g <$> x) := by
  rw [← bind_pure_comp]
  exact hx.bind fun a => brings_of_readOnly (readOnly_pure (g a))

/-- An atomic action that stores an account under its email brings that one. -/
theorem brings_of_write {x : Action α} (hx : x.Atomic) (hon : ∀ c, (x.on c).2 = c ∨
    (x.on c).2 = c.write admins.name (Bytes.ofText account.email) (Record.encode account)) :
    Brings (some account) x := by
  intro b email found hload
  rcases hx.contents_cases b with hb | hb
  · exact .inl (hb ▸ hload)
  rcases hon b.contents with hc | hc
  all_goals rw [hb, hc] at hload
  · exact .inl hload
  by_cases hemail : email = account.email
  · subst hemail
    have hhas : b.contents.Has admins.name :=
      (has_write _ _).1 (Backend.has_of_answer_getRecord hload)
    have hwritten : (admins.load account.email).answer (b.contents.write admins.name
        (Bytes.ofText account.email) (Record.encode account)) = .ok (some account) :=
      Backend.answer_getRecord_write hhas account
    rw [hwritten] at hload
    rw [← Option.some.inj (Except.ok.inj hload)]
    exact .inr ⟨rfl, rfl⟩
  · exact .inl ((Backend.answer_getRecord_write_of_key_ne hemail).symm.trans hload)

end Brings

/-! ### Calls and requests -/

theorem brings_createNamespace (space : String) :
    Brings stored (Backend.createNamespace space) := by
  refine brings_of_atomic (atomic_perform .create space _) fun c key value hvalue => ?_
  exact (Backend.value?_createNamespace space c admins.name key).symm.trans hvalue

theorem brings_put (key value : Bytes) : Brings stored (Backend.put keySpace key value) := by
  refine brings_of_atomic (Backend.atomic_put _ _ _) fun c k v hvalue => ?_
  by_cases hhas : c.Has keySpace
  · rw [Backend.on_put hhas, value?_write_of_ne fun h => absurd h.1 (by decide)] at hvalue
    exact hvalue
  · rwa [Backend.on_put_of_not_has hhas] at hvalue

theorem brings_delete (space : String) (key : Bytes) :
    Brings stored (Backend.delete space key) := by
  refine brings_of_atomic (Backend.atomic_delete _ _) fun c k v hvalue => ?_
  by_cases hhas : c.Has space
  · rw [Backend.on_delete hhas] at hvalue
    exact value?_of_remove hvalue
  · rwa [Backend.on_delete_of_not_has hhas] at hvalue

theorem brings_deleteAccount (email : String) : Brings stored (admins.delete email) := by
  apply (brings_of_readOnly (IdentitySpace.readOnly_load admins email)).bind
  intro found
  cases found with
  | none => exact brings_of_readOnly (readOnly_throw _)
  | some account => exact brings_delete _ _

theorem brings_insert (account : Account) : Brings (some account) (admins.insert account) := by
  refine brings_of_write (IdentitySpace.atomic_insert admins account) fun c => ?_
  rw [IdentitySpace.on_insert]
  rcases (admins.load account.email).answer c with e | _ | found
  · exact .inl rfl
  · exact .inr rfl
  · exact .inl rfl

theorem brings_replace (account : Account) : Brings (some account) (admins.replace account) := by
  refine brings_of_write (IdentitySpace.atomic_replace admins account) fun c => ?_
  rw [IdentitySpace.on_replace]
  rcases (admins.load account.email).answer c with e | _ | found
  · exact .inl rfl
  · exact .inl rfl
  · exact .inr rfl

theorem brings_index (now : Instant) (email password : String) :
    Brings stored (index now email password) := by
  apply (brings_put _ _).andThen
  intro r
  cases r with
  | ok _ => exact brings_of_readOnly (readOnly_pure _)
  | error e =>
    exact (brings_deleteAccount email).bind fun _ => brings_of_readOnly (readOnly_throw e)

/-- No request brings an account but the one that it is to store. -/
theorem brings_run (request : Request) : Brings request.account? request.run := by
  cases request with
  | setup => exact (brings_createNamespace _).bind fun _ => brings_createNamespace _
  | create now email password =>
    rw [Request.run, create_eq]
    exact ((brings_insert (newAccount now email password)).bind fun _ =>
      brings_index now email password).map _
  | authenticate key => exact (brings_of_readOnly (readOnly_authenticate key)).map _
  | delete key =>
    apply (brings_of_readOnly (readOnly_authenticate key)).bind
    intro account
    exact (brings_deleteAccount account.email).bind fun _ => brings_delete _ _
  | deleteByEmail email =>
    apply (brings_of_readOnly (readOnly_ofEmail email)).bind
    intro account
    cases account.key with
    | none => exact brings_deleteAccount email
    | some key => exact (brings_delete _ _).bind fun _ => brings_deleteAccount email
  | insert account => exact brings_insert account
  | replace account => exact brings_replace account
  | deleteAccount email => exact brings_deleteAccount email

theorem load_of_step {step : Step}
    (h : (admins.load email).answer (step.run b).contents = .ok (some account)) :
    (admins.load email).answer b.contents = .ok (some account) ∨
      step.account? = some account ∧ account.email = email := by
  cases step with
  | call request => exact brings_run request b email account h
  | arm fault => exact .inl h

/-! ### All states -/

/-- The account of an email carries a key. -/
def Carries (c : Contents) (email key : String) : Prop :=
  ∃ account, (admins.load email).answer c = .ok (some account) ∧ account.key = some key

/-- A step stores an account. -/
structure Stores (b : Backend) (step : Step) (account : Account) : Prop where
  brings : step.account? = some account
  absent : (admins.load account.email).answer b.contents ≠ .ok (some account)
  present : (admins.load account.email).answer (step.run b).contents = .ok (some account)

/-- Every account is stored under the email that it carries. -/
theorem email_of_load_after (past : List Step)
    (h : (admins.load email).answer (after past).contents = .ok (some account)) :
    account.email = email := by
  induction past with
  | nil =>
    obtain ⟨value, hvalue, -⟩ := Backend.answer_getRecord_eq_some_iff.1 h
    contradiction
  | cons step past ih =>
    rcases load_of_step h with hbefore | ⟨-, hemail⟩
    · exact ih hbefore
    · exact hemail

/-- An account that carries a key did so before, or a step has stored one of its email that does. -/
theorem carries_cases (past later : List Step)
    (h : Carries (after (later ++ past)).contents email key) :
    Carries (after past).contents email key ∨ ∃ newer step older account,
      later = newer ++ step :: older ∧ Stores (after (older ++ past)) step account ∧
        account.email = email ∧ account.key = some key := by
  induction later with
  | nil => exact .inl h
  | cons step later ih =>
    by_cases hbefore : Carries (after (later ++ past)).contents email key
    · rcases ih hbefore with hpast | ⟨newer, step', older, account, hlater, hrest⟩
      · exact .inl hpast
      · exact .inr ⟨step :: newer, step', older, account, by rw [hlater]; rfl, hrest⟩
    · obtain ⟨account, hload, hkey⟩ := h
      rcases load_of_step hload with hload' | ⟨hstep, hemail⟩
      · exact absurd ⟨account, hload', hkey⟩ hbefore
      · subst hemail
        have habsent : (admins.load account.email).answer (after (later ++ past)).contents
            ≠ .ok (some account) := fun hload' => hbefore ⟨account, hload', hkey⟩
        exact .inr ⟨[], step, later, account, rfl, ⟨hstep, habsent, hload⟩, rfl, hkey⟩

theorem stored_of_authenticate {past : List Step}
    (h : ((authenticate key).run (after past)).1 = .ok account) :
    (admins.load account.email).answer (after past).contents = .ok (some account) ∧
      account.key = some key := by
  have hanswer := (readOnly_authenticate key).answer_of_ok h
  obtain ⟨-, email, -, hkey, hload⟩ := answer_authenticate_eq_ok_iff.1 hanswer
  rw [email_of_load_after past hload]
  exact ⟨hload, hkey⟩

/-- In every state, with or without armed faults, a key authenticates only the account that is
stored under its email and carries the key, and no other key authenticates one of that email. If in
an earlier state the account of the email did not carry the key, an account of the email that does
has been stored since. -/
theorem authenticate_after {past later : List Step}
    (h : ((authenticate key).run (after (later ++ past))).1 = .ok account) :
    ((admins.load account.email).answer (after (later ++ past)).contents = .ok (some account) ∧
      account.key = some key) ∧
    (∀ key' account', ((authenticate key').run (after (later ++ past))).1 = .ok account' →
      account'.email = account.email → key' = key) ∧
    (Carries (after past).contents account.email key ∨ ∃ newer step older stored,
      later = newer ++ step :: older ∧ Stores (after (older ++ past)) step stored ∧
        stored.email = account.email ∧ stored.key = some key) := by
  obtain ⟨hload, hkey⟩ := stored_of_authenticate h
  refine ⟨⟨hload, hkey⟩, fun key' account' h' hemail => ?_, ?_⟩
  · obtain ⟨hload', hkey'⟩ := stored_of_authenticate h'
    rw [hemail, hload] at hload'
    rw [← Option.some.inj (Except.ok.inj hload'), hkey] at hkey'
    exact (Option.some.inj hkey').symm
  · exact carries_cases past later ⟨account, hload, hkey⟩

/-! ### A key that is left behind and carried again -/

/-- The store of admins in the beginning. -/
def vacant : Contents :=
  ((Backend.createNamespace keySpace).on ((Backend.createNamespace admins.name).on .empty).2).2

theorem value?_vacant (space : String) (key : Bytes) : vacant.value? space key = none := by
  rw [vacant, Backend.value?_createNamespace, Backend.value?_createNamespace]
  rfl

theorem has_vacant {space : String} (h : space ∈ namespaces) : vacant.Has space := by
  rw [vacant, Backend.has_createNamespace, Backend.has_createNamespace]
  rcases List.mem_cons.1 h with rfl | h
  · exact .inl (.inr rfl)
  · exact .inr (List.mem_singleton.1 h)

theorem run_call (request : Request) (h : request.run.Steady) {c c' : Contents}
    {r : Except AuthError Unit} (hon : request.run.on c = (r, c')) :
    (Step.call request).run ⟨c, []⟩ = ⟨c', []⟩ := by
  rw [Step.run, run_eq_on h, hon]

theorem after_setup : after [.call .setup] = ⟨vacant, []⟩ := by
  have hcreate : ∀ space, (Backend.createNamespace space).Steady :=
    fun space => (atomic_perform .create space _).steady
  refine run_call .setup (r := .ok ()) ((hcreate _).bind fun _ => hcreate _) ?_
  exact on_bind_ok (hcreate _) (Backend.on_createNamespace _ _)

theorem load_vacant (email : String) : (admins.load email).answer vacant = .ok none :=
  Backend.answer_getRecord_eq_none_iff.2 ⟨has_vacant List.mem_cons_self, .inl (value?_vacant _ _)⟩

/-- An admin has been registered. -/
def staffed : Contents :=
  (vacant.write admins.name (Bytes.ofText "ann")
    (Record.encode (newAccount .first "ann" "pass"))).write
      keySpace (Bytes.ofText (newKey .first "pass")) (Bytes.ofText "ann")

/-- The account has been deleted, which leaves the index as it was. -/
def abandoned : Contents := staffed.remove admins.name (Bytes.ofText "ann")

theorem has_staffed : staffed.Has admins.name :=
  (has_write _ _).2 ((has_write _ _).2 (has_vacant List.mem_cons_self))

theorem load_staffed :
    (admins.load "ann").answer staffed = .ok (some (newAccount .first "ann" "pass")) := by
  exact (Backend.answer_getRecord_write_of_space_ne (by decide)).trans
    (Backend.answer_getRecord_write (has_vacant List.mem_cons_self) _)

theorem load_abandoned : (admins.load "ann").answer abandoned = .ok none :=
  Backend.answer_getRecord_remove has_staffed

theorem after_create : after [.call (.create .first "ann" "pass"), .call .setup]
    = ⟨staffed, []⟩ := by
  have hcreate : (create .first "ann" "pass").on vacant = _ :=
    on_create (has_vacant (List.mem_cons_of_mem _ List.mem_cons_self)) .first
  rw [load_vacant] at hcreate
  rw [after, after_setup]
  refine run_call (.create _ _ _) ((steady_create _ _ _).map _) (r := .ok ()) ?_
  rw [Request.run, on_map, hcreate]
  rfl

def leftBehind : List Step :=
  [.call (.deleteAccount "ann"), .call (.create .first "ann" "pass"), .call .setup]

theorem after_leftBehind : after leftBehind = ⟨abandoned, []⟩ := by
  have hdelete := IdentitySpace.on_delete admins "ann" staffed
  rw [load_staffed] at hdelete
  rw [leftBehind, after, after_create]
  exact run_call (.deleteAccount _) (IdentitySpace.atomic_delete admins "ann").steady hdelete

theorem after_insert :
    after ([.call (.insert (newAccount .first "ann" "pass"))] ++ leftBehind)
      = ⟨abandoned.write admins.name (Bytes.ofText "ann")
        (Record.encode (newAccount .first "ann" "pass")), []⟩ := by
  have hinsert := IdentitySpace.on_insert admins (newAccount .first "ann" "pass") abandoned
  rw [show (newAccount .first "ann" "pass").email = "ann" from rfl, load_abandoned] at hinsert
  rw [List.singleton_append, after, after_leftBehind]
  exact run_call (.insert _) (IdentitySpace.atomic_insert admins _).steady hinsert

theorem authenticate_again : (authenticate (newKey .first "pass")).answer
    (abandoned.write admins.name (Bytes.ofText "ann")
      (Record.encode (newAccount .first "ann" "pass"))) = .ok (newAccount .first "ann" "pass") := by
  refine answer_authenticate_eq_ok_iff.2 ⟨newKey_ne_empty _ _, "ann", ?_,
    key_newAccount _ _ _, Backend.answer_getRecord_write ((has_remove _).2 has_staffed) _⟩
  rw [value?_write_of_ne fun hname => absurd hname.1 (by decide), abandoned,
    value?_remove_of_ne fun hname => absurd hname.1 (by decide), staffed]
  exact value?_write_self
    ((has_write _ _).2 (has_vacant (List.mem_cons_of_mem _ List.mem_cons_self))) _

/-- The key that was left behind authenticates the admin again, whose account has been stored since
with the key. -/
theorem authenticate_after_insert :
    ((authenticate (newKey .first "pass")).run
      (after ([.call (.insert (newAccount .first "ann" "pass"))] ++ leftBehind))).1
        = .ok (newAccount .first "ann" "pass") ∧
    ¬ Carries (after leftBehind).contents "ann" (newKey .first "pass") ∧
    ∃ newer step older stored, [.call (.insert (newAccount .first "ann" "pass"))]
        = newer ++ step :: older ∧ Stores (after (older ++ leftBehind)) step stored ∧
          stored.email = "ann" ∧ stored.key = some (newKey .first "pass") := by
  have hanswer : ((authenticate (newKey .first "pass")).run
      (after ([.call (.insert (newAccount .first "ann" "pass"))] ++ leftBehind))).1
        = .ok (newAccount .first "ann" "pass") := by
    rw [after_insert, run_fst, ← answer, authenticate_again]
  have hlost : ¬ Carries (after leftBehind).contents "ann" (newKey .first "pass") := by
    rintro ⟨account, hload, -⟩
    rw [after_leftBehind, load_abandoned] at hload
    cases Except.ok.inj hload
  obtain ⟨-, -, hcarries | hstores⟩ := authenticate_after hanswer
  · exact absurd hcarries hlost
  · exact ⟨hanswer, hlost, hstores⟩

end AuthVault.Admins
