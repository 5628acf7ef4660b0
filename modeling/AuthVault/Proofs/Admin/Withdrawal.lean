import AuthVault.Proofs.Admin.Registry

/-!
# Deletions of admins that stop half-way

An admin is deleted by two removals, and nothing is put back where the second one fails. With a key
the account goes first, by email the entry of the index does. In every state that requests and faults
lead to, a deletion that fails has either changed nothing or done the first removal and nothing else
(`deletion_of_error`); then it was a fault that came between, and the key authenticates nobody, since
that takes both.
-/

namespace AuthVault.Admins

open AuthVault.Action Contents
open IdentitySpace (admins)

variable {c : Contents} {b : Backend} {email key : String} {account : Account} {e : AuthError}

/-- The requests that delete an admin. -/
def Request.Deletes : Request → Prop
  | .delete _ | .deleteByEmail _ => True
  | _ => False

/-- What a deletion leaves of an admin who has a key, between its two removals. -/
inductive Parted (c : Contents) (account : Account) (key : String) : Request → Contents → Prop
  /-- The index still has the key. -/
  | entry (admin : (authenticate key).answer c = .ok account) :
      Parted c account key (.delete key) (c.remove admins.name (Bytes.ofText account.email))
  /-- The account is still there. -/
  | account {email : String} (stored : (admins.load email).answer c = .ok (some account))
      (carries : account.key = some key) :
      Parted c account key (.deleteByEmail email) (c.remove keySpace (Bytes.ofText key))

/-- Neither half lets the key in. -/
theorem Parted.authenticate_ne {request : Request} {c' : Contents}
    (h : Parted c account key request c')
    (hcarried : ∀ email account, (admins.load email).answer c = .ok (some account) →
      account.email = email) (account' : Account) :
    (authenticate key).answer c' ≠ .ok account' := by
  intro hauth'
  obtain ⟨-, email', hvalue', -, hload'⟩ := answer_authenticate_eq_ok_iff.1 hauth'
  cases h with
  | entry hauth =>
    obtain ⟨-, email, hvalue, -, hload⟩ := answer_authenticate_eq_ok_iff.1 hauth
    obtain rfl := hcarried email account hload
    rw [value?_remove_of_ne fun hname => absurd hname.1 (by decide), hvalue] at hvalue'
    have hgone : (admins.load account.email).answer
        (c.remove admins.name (Bytes.ofText account.email)) = .ok none :=
      Backend.answer_getRecord_remove (Backend.has_of_answer_getRecord hload)
    rw [← Bytes.ofText_inj.1 (Option.some.inj hvalue'), hgone] at hload'
    cases Except.ok.inj hload'
  | account =>
    rw [value?_remove_self] at hvalue'
    contradiction

/-- A deletion with a key stops after the account only for a fault. -/
theorem delete_of_error (herror : ((delete key).run b).1 = .error e) :
    ((delete key).run b).2.contents = b.contents ∨ ∃ call account, e = Backend.injected call ∧
      Parted b.contents account key (.delete key) ((delete key).run b).2.contents := by
  have hread := readOnly_authenticate key
  rcases run_bind_cases (authenticate key) (fun account => admins.delete account.email >>= fun _ =>
      Backend.delete keySpace (Bytes.ofText key)) b with ⟨e', -, hrun⟩ | ⟨account, hok, hrun⟩
  all_goals rw [show (delete key).run b = _ from hrun] at herror ⊢
  · exact .inl (hread.contents b)
  have hauth := hread.answer_of_ok hok
  obtain ⟨-, email, hvalue, -⟩ := answer_authenticate_eq_ok_iff.1 hauth
  rw [← hread.contents b] at hauth hvalue ⊢
  rcases (IdentitySpace.atomic_delete admins account.email).bind_of_error
      (fun _ => Backend.atomic_delete _ _) herror with hkept | ⟨_, hdeleted, hfailed, hleft⟩
  · exact .inl hkept
  · obtain ⟨-, hremoved⟩ := IdentitySpace.delete_of_ok hdeleted
    have hhas : ((admins.delete account.email).run ((authenticate key).run b).2).2.contents.Has
        keySpace := by
      rw [hremoved]
      exact (has_remove keySpace).2 (has_of_value? hvalue)
    obtain ⟨call, hcall⟩ := (Backend.struck_delete hhas hfailed).answer
    refine .inr ⟨call, account, Except.error.inj (hfailed.symm.trans hcall), ?_⟩
    rw [hleft, hremoved]
    exact .entry hauth

/-- Removes an account, after the key that it carries. -/
def withdraw (email : String) (account : Account) : Action Unit :=
  match account.key with
  | some key => Backend.delete keySpace (Bytes.ofText key) >>= fun _ => admins.delete email
  | none => admins.delete email

theorem deleteByEmail_eq (email : String) :
    deleteByEmail email = ofEmail email >>= withdraw email := by
  unfold deleteByEmail
  congr 1
  funext account
  unfold withdraw
  cases account.key <;> rfl

/-- A deletion by email stops after the entry of the index only for a fault. -/
theorem deleteByEmail_of_error (herror : ((deleteByEmail email).run b).1 = .error e) :
    ((deleteByEmail email).run b).2.contents = b.contents ∨ ∃ call account key,
      e = Backend.injected call ∧ Parted b.contents account key (.deleteByEmail email)
        ((deleteByEmail email).run b).2.contents := by
  have hread := readOnly_ofEmail email
  rw [deleteByEmail_eq] at herror ⊢
  rcases run_bind_cases (ofEmail email) (withdraw email) b
      with ⟨e', -, hrun⟩ | ⟨account, hok, hrun⟩
  all_goals rw [hrun] at herror ⊢
  · exact .inl (hread.contents b)
  have hload := answer_ofEmail_eq_ok_iff.1 (hread.answer_of_ok hok)
  rw [← hread.contents b] at hload ⊢
  have hdelete := IdentitySpace.atomic_delete admins email
  unfold withdraw at herror ⊢
  cases hkey : account.key with
  | none =>
    rw [hkey] at herror
    exact .inl (hdelete.of_error herror)
  | some key =>
    rw [hkey] at herror
    rcases (Backend.atomic_delete _ _).bind_of_error (fun _ => hdelete) herror
        with hkept | ⟨_, hremoved, hfailed, hleft⟩
    · exact .inl hkept
    · have hstored := Backend.delete_of_ok hremoved
      have hthere : (admins.load email).answer ((Backend.delete keySpace (Bytes.ofText key)).run
          ((ofEmail email).run b).2).2.contents = .ok (some account) := by
        rw [hstored]
        refine (Backend.answer_getRecord_remove_of_ne ?_).trans hload
        exact fun hname => absurd hname.1 (by decide)
      obtain ⟨call, hcall⟩ := (IdentitySpace.struck_delete hthere hfailed).answer
      refine .inr ⟨call, account, key, Except.error.inj (hfailed.symm.trans hcall), ?_⟩
      exact (hleft.trans hstored) ▸ .account hload hkey

/-- In every state that requests and faults lead to, the deletion of an admin that fails leaves
everything as it was, or a fault has parted account and key, and the key authenticates nobody. -/
theorem deletion_of_error {past : List Step} {request : Request} (hrequest : request.Deletes)
    (herror : (request.run.run (after past)).1 = .error e) :
    (request.run.run (after past)).2.contents = (after past).contents ∨
      (∃ call, e = Backend.injected call) ∧ ∃ account key,
        Parted (after past).contents account key request
          (request.run.run (after past)).2.contents ∧
        ∀ account', (authenticate key).answer (request.run.run (after past)).2.contents
          ≠ .ok account' := by
  have hcarried : ∀ email account, (admins.load email).answer (after past).contents
      = .ok (some account) → account.email = email := fun _ _ => email_of_load_after past
  cases request with
  | delete key =>
    rcases delete_of_error herror with hkept | ⟨call, account, he, hparted⟩
    · exact .inl hkept
    · exact .inr ⟨⟨call, he⟩, account, key, hparted, hparted.authenticate_ne hcarried⟩
  | deleteByEmail email =>
    rcases deleteByEmail_of_error herror with hkept | ⟨call, account, key, he, hparted⟩
    · exact .inl hkept
    · exact .inr ⟨⟨call, he⟩, account, key, hparted, hparted.authenticate_ne hcarried⟩
  | _ => contradiction

/-! ### An account that goes without its key -/

/-- The next removal of a key is to fail. -/
def jam : Fault := ⟨.delete, keySpace, 0⟩

def jammed : List Step := [.arm jam, .call (.create .first "ann" "pass"), .call .setup]

theorem after_jammed : after jammed = ⟨staffed, [jam]⟩ := by
  rw [jammed, after, after_create]
  rfl

theorem authenticate_staffed : (authenticate (newKey .first "pass")).answer staffed
    = .ok (newAccount .first "ann" "pass") := by
  refine answer_authenticate_eq_ok_iff.2 ⟨newKey_ne_empty _ _, "ann", ?_, key_newAccount _ _ _,
    load_staffed⟩
  exact value?_write_self
    ((has_write _ _).2 (has_vacant (List.mem_cons_of_mem _ List.mem_cons_self))) _

theorem delete_jammed : (delete (newKey .first "pass")).run (after jammed)
    = (.error (Backend.injected .delete), ⟨abandoned, []⟩) := by
  have hauth : (authenticate (newKey .first "pass")).run (after jammed)
      = (.ok (newAccount .first "ann" "pass"), ⟨staffed, [jam]⟩) := by
    rw [after_jammed, ignores_authenticate (by decide), (readOnly_authenticate _).on_eq,
      authenticate_staffed]
  have hremove : (admins.delete "ann").run ⟨staffed, [jam]⟩ = (.ok (), ⟨abandoned, [jam]⟩) := by
    rw [IdentitySpace.ignores_delete (by decide) (by decide), IdentitySpace.on_delete, load_staffed]
    rfl
  exact (run_bind_ok hauth).trans (run_bind_ok hremove)

/-- The deletion has failed, and the account of the admin is gone. -/
theorem delete_jammed_partial :
    ((Request.delete (newKey .first "pass")).run.run (after jammed)).1
      = .error (Backend.injected .delete) ∧
    (admins.load "ann").answer (after jammed).contents
      = .ok (some (newAccount .first "ann" "pass")) ∧
    (admins.load "ann").answer
      ((Request.delete (newKey .first "pass")).run.run (after jammed)).2.contents = .ok none := by
  rw [Request.run, delete_jammed, after_jammed]
  exact ⟨rfl, load_staffed, load_abandoned⟩

/-- The key that the account has left behind authenticates nobody. -/
theorem parted_jammed : ∃ account key,
    Parted (after jammed).contents account key (.delete (newKey .first "pass")) abandoned ∧
    ∀ account', (authenticate key).answer abandoned ≠ .ok account' := by
  have hdeletes : (Request.delete (newKey .first "pass")).Deletes := trivial
  have hrun : (Request.delete (newKey .first "pass")).run.run (after jammed) = _ := delete_jammed
  rcases deletion_of_error hdeletes (congrArg Prod.fst hrun) with hkept | ⟨-, account, key, hparted⟩
  · have hload := load_abandoned
    rw [hrun, after_jammed] at hkept
    rw [show abandoned = staffed from hkept, load_staffed] at hload
    cases Except.ok.inj hload
  · rw [hrun] at hparted
    exact ⟨account, key, hparted⟩

end AuthVault.Admins
