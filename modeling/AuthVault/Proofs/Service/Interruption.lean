import AuthVault.Proofs.Service.AdminKeys
import AuthVault.Proofs.Time.Expiry

/-!
# What an interruption leaves

An operation that deletes no account and fails while at most one fault fires leaves everything as it
was, or it has used the session that its caller presents and changed nothing else (`Spent`,
`contents_of_error`). Records that cannot be read make no difference.

Nearly every operation changes one entry, and does so at its end. Two kinds go on after a change. What
is done for the user of a session comes after the use, which is not taken back (`recovers_gated`). The
registration of an admin takes the account back when the index cannot be written
(`Admins.contents_index_of_error`): the one fault has fired by then, so nothing is in the way of that,
and nothing is left, as there was no entry before, not even an empty one (`recovers_create`).
-/

namespace AuthVault

open AuthVault.Action Contents
open IdentitySpace (users admins)

/-- Where one fault keeps the key of a new admin out of the index, the account is taken back. -/
theorem Admins.contents_index_of_error {now : Instant} {email password : String} {b : Backend}
    {account : Account} {e : AuthError} (hhas : b.contents.Has keySpace)
    (hload : (admins.load email).answer b.contents = .ok (some account))
    (herror : ((index now email password).run b).1 = .error e)
    (hfaults : b.faults.length ≤ ((index now email password).run b).2.faults.length + 1) :
    ((index now email password).run b).2.contents
      = b.contents.remove admins.name (Bytes.ofText email) := by
  have hwrite := Backend.atomic_put keySpace (Bytes.ofText (newKey now password))
    (Bytes.ofText email)
  unfold index at herror hfaults ⊢
  rw [run_andThen] at herror hfaults ⊢
  cases hanswer : ((Backend.put keySpace (Bytes.ofText (newKey now password))
      (Bytes.ofText email)).run b).1 with
  | ok _ =>
    rw [hanswer] at herror
    contradiction
  | error e₁ =>
    have hkept := hwrite.of_error hanswer
    have hfired := (hwrite.struck_of_error
      (congrArg Prod.fst (Backend.on_put hhas _ _)) hanswer).faults
    rw [hanswer] at hfaults
    generalize ((Backend.put keySpace (Bytes.ofText (newKey now password))
      (Bytes.ofText email)).run b).2 = b₁ at hkept hfired hfaults ⊢
    rw [← hkept] at hload ⊢
    rcases run_bind_cases (admins.delete email) (fun _ => throw e₁ : Unit → Action String) b₁
        with ⟨e₂, herror, hrun⟩ | ⟨_, hok, hrun⟩
    · -- a second fault would have fired
      have hfired' := (IdentitySpace.struck_delete hload herror).faults
      rw [hrun] at hfaults
      exact absurd hfaults (by dsimp only; omega)
    · rw [hrun, run_throw]
      exact (IdentitySpace.delete_of_ok hok).2

namespace Service

variable {α β : Type} {moment : Moment} {presented : Option (String × String)} {b : Backend}
  {c c' : Contents}

/-- What is left where nothing has been done, or nothing beyond a use of the session that has been
presented. -/
inductive Spent (moment : Moment) (presented : Option (String × String)) (c : Contents) :
    Contents → Prop
  | unchanged : Spent moment presented c c
  | use {email key : String} {session : Session} (presents : presented = some (email, key))
      (found : (Sessions.get email).answer c = .ok (some session))
      (live : Sessions.Live moment.now key session) (carries : session.email = email) :
      Spent moment presented c (c.write Sessions.space (Bytes.ofText email)
        (Record.encode (Sessions.slid moment.now moment.window session)))

theorem Spent.mono {presented' : Option (String × String)} (h : Spent moment presented c c')
    (hpresents : ∀ pair, presented = some pair → presented' = some pair) :
    Spent moment presented' c c' := by
  cases h with
  | unchanged => exact .unchanged
  | use presents found live carries => exact .use (hpresents _ presents) found live carries

namespace Spent

theorem get?_of_ne (h : Spent moment presented c c') {space : String}
    (hspace : space ≠ Sessions.space) : c'.get? space = c.get? space := by
  cases h with
  | unchanged => rfl
  | use presents found live carries => exact get?_write_of_ne hspace

theorem keys_eq (h : Spent moment presented c c') :
    (c'.get? Sessions.space).map Dict.keys = (c.get? Sessions.space).map Dict.keys := by
  cases h with
  | unchanged => rfl
  | use presents found live carries =>
    obtain ⟨old, hold, -⟩ := Backend.answer_getRecord_eq_some_iff.1 found
    exact keys_write hold

/-- A session that is not as before is the one that has been presented, live, and has another expiry
now. -/
theorem session_of_ne (h : Spent moment presented c c') {key : Bytes}
    (hne : c'.value? Sessions.space key ≠ c.value? Sessions.space key) :
    ∃ session : Session, presented = some (session.email, session.key) ∧
      session.expiresAt.notAfter moment.now = false ∧ key = Bytes.ofText session.email ∧
      (Sessions.get session.email).answer c = .ok (some session) ∧
      (Sessions.get session.email).answer c'
        = .ok (some { session with expiresAt := moment.now.expiry moment.window }) := by
  cases h with
  | unchanged => exact absurd rfl hne
  | @use _ _ session presents found live carries =>
    obtain ⟨rfl, hlasts⟩ := live
    subst carries
    have hkey : key = Bytes.ofText session.email :=
      Decidable.of_not_not fun hother => hne (value?_write_of_ne fun heq => hother heq.2)
    refine ⟨session, presents, hlasts, hkey, found, ?_⟩
    exact Backend.answer_getRecord_write (Backend.has_of_answer_getRecord found) _

end Spent

/-- Where the action fails while at most one fault fires, it has used a session at most. -/
def Recovers (moment : Moment) (presented : Option (String × String)) (x : Action α)
    (b : Backend) : Prop :=
  ∀ e, (x.run b).1 = .error e → b.faults.length ≤ (x.run b).2.faults.length + 1 →
    Spent moment presented b.contents (x.run b).2.contents

theorem recovers_of_atomic {x : Action α} (h : x.Atomic) (b : Backend) :
    Recovers moment presented x b := by
  intro e herror _
  rw [h.of_error herror]
  exact .unchanged

/-- What comes after a read finds the same contents, and no more faults. -/
theorem Recovers.andThen {x : Action α} {next : Except AuthError α → Action β} (hx : x.ReadOnly)
    (hnext : ∀ r b', b'.contents = b.contents → Recovers moment presented (next r) b') :
    Recovers moment presented (x.andThen next) b := by
  intro e herror hfaults
  rw [run_andThen] at herror hfaults ⊢
  rw [← hx.contents b]
  exact hnext _ _ (hx.contents b) e herror (Nat.le_trans (hx.steady.faults_le b) hfaults)

theorem Recovers.then {x : Action α} {f : α → Action β} (hx : x.ReadOnly)
    (hf : ∀ a b', b'.contents = b.contents → Recovers moment presented (f a) b') :
    Recovers moment presented (x >>= f) b := by
  refine .andThen hx fun r b' hkept => ?_
  cases r with
  | ok a => exact hf a b' hkept
  | error e => exact recovers_of_atomic (readOnly_throw e).atomic b'

theorem Recovers.map {x : Action α} (h : Recovers moment presented x b) (g : α → β) :
    Recovers moment presented (g <$> x) b := by
  intro e herror hfaults
  rw [run_map] at herror hfaults ⊢
  cases hanswer : (x.run b).1 with
  | ok a => rw [hanswer] at herror; contradiction
  | error e' => exact h e' hanswer hfaults

/-! ### Registrations of admins -/

section Admin

variable (hhas : b.contents.Has Admins.keySpace)
  (hadmins : ∀ key, b.contents.value? admins.name key ≠ some [])
include hhas hadmins

/-- A registration that fails has stored nothing, or taken back what it has stored. -/
theorem recovers_create (now : Instant) (email password : String) :
    Recovers moment presented (Admins.create now email password) b := by
  have hinsert := IdentitySpace.atomic_insert admins (Admins.newAccount now email password)
  have hle := hinsert.steady.faults_le b
  rw [Admins.create_eq]
  intro e herror hfaults
  rcases run_bind_cases (admins.insert (Admins.newAccount now email password))
      (fun _ => Admins.index now email password) b with ⟨e', hfailed, hrun⟩ | ⟨_, hok, hrun⟩
  all_goals rw [hrun] at herror hfaults ⊢
  · rw [hinsert.of_error hfailed]
    exact .unchanged
  obtain ⟨hload, hstored⟩ := IdentitySpace.insert_of_ok hok
  obtain ⟨hspace, habsent | hempty⟩ := Backend.answer_getRecord_eq_none_iff.1 hload
  · have hfound : (admins.load email).answer
        ((admins.insert (Admins.newAccount now email password)).run b).2.contents
          = .ok (some (Admins.newAccount now email password)) := by
      rw [hstored]
      exact Backend.answer_getRecord_write hspace _
    have hindexed : ((admins.insert (Admins.newAccount now email password)).run b).2.contents.Has
        Admins.keySpace := by
      rw [hstored]
      exact (has_write _ _).2 hhas
    have hback : (b.contents.write admins.name (Bytes.ofText email)
        (Record.encode (Admins.newAccount now email password))).remove admins.name
          (Bytes.ofText email) = b.contents :=
      remove_write.trans (remove_of_value?_eq_none habsent)
    rw [Admins.contents_index_of_error hindexed hfound herror (Nat.le_trans hle hfaults), hstored]
    exact hback.symm ▸ .unchanged
  · exact absurd hempty (hadmins _)

theorem recovers_bootstrapAdmin (email password : String) :
    Recovers moment presented (bootstrapAdmin moment email password) b := by
  refine .andThen (Admins.readOnly_ofEmail email) fun r b' hkept => ?_
  rw [← hkept] at hhas hadmins
  cases r with
  | ok account => exact recovers_of_atomic (readOnly_pure none).atomic b'
  | error e =>
    cases e with
    | notFound _ => exact (recovers_create hhas hadmins moment.now email password).map some
    | _ => exact recovers_of_atomic (readOnly_throw _).atomic b'

end Admin

/-! ### What is done for the user of a session -/

section Session

variable (hsessions : ∀ (email : String) (session : Session),
    (Sessions.get email).answer b.contents = .ok (some session) → session.email = email)
include hsessions

/-- What comes after the use of a session leaves the use where it fails. -/
theorem recovers_gated {x : Action α} (email key : String) (hx : x.Atomic) :
    Recovers moment (some (email, key)) (validate moment email key >>= fun _ => x) b := by
  have huse : (validate moment email key).Atomic :=
    Sessions.atomic_validate moment.now moment.window email key
  intro e herror _
  rcases huse.bind_of_error (fun _ => hx) herror with hkept | ⟨_, hok, -, hused⟩
  · rw [hkept]
    exact .unchanged
  · have hon := huse.on_of_ok hok
    rcases Sessions.validate_cases moment.now moment.window email key b.contents
        with ⟨e', hrefused⟩ | ⟨session, hget, hlive⟩
    · cases hon.symm.trans hrefused
    · have hstored : ((validate moment email key).run b).2.contents
          = b.contents.write Sessions.space (Bytes.ofText session.email)
            (Record.encode (Sessions.slid moment.now moment.window session)) :=
        congrArg Prod.snd (hon.symm.trans (Sessions.on_validate_of_live hget hlive))
      have hcarries := hsessions email session hget
      rw [hused, hstored, hcarries]
      exact .use rfl hget hlive hcarries

end Session

/-! ### Operations -/

/-- The operations that delete the account of an admin or a user. -/
def Operation.DeletesAccount : Operation → Prop
  | .deleteAdmin _ | .deleteUser _ _ => True
  | _ => False

theorem recovers_run {op : Operation} (hop : ¬ op.DeletesAccount)
    (hspaces : ∀ space ∈ namespaces, b.contents.Has space)
    (hadmins : ∀ key, b.contents.value? admins.name key ≠ some [])
    (hsessions : ∀ (email : String) (session : Session),
      (Sessions.get email).answer b.contents = .ok (some session) → session.email = email) :
    Recovers moment op.session? (op.run moment) b := by
  have hindex : b.contents.Has Admins.keySpace := hspaces _ (by decide)
  cases op with
  | bootstrapAdmin email password =>
    exact (recovers_bootstrapAdmin hindex hadmins email password).map _
  | checkAdmin key =>
    exact (recovers_of_atomic (Admins.readOnly_authenticate key).atomic b).map _
  | createAdmin key email password =>
    refine Recovers.map (.then (readOnly_requireField _ _) fun _ b₁ h₁ => ?_) _
    refine .then (Admins.readOnly_authenticate key) fun _ b₂ h₂ => ?_
    rw [← h₁, ← h₂] at hindex hadmins
    exact recovers_create hindex hadmins moment.now email password
  | createUser key email password =>
    refine Recovers.map (.then (readOnly_requireField _ _) fun _ b₁ _ => ?_) _
    refine .then (Admins.readOnly_authenticate key) fun _ b₂ _ => recovers_of_atomic ?_ b₂
    exact (IdentitySpace.atomic_createSeeded users email password _).map _
  | login email password =>
    refine Recovers.map (.then (readOnly_requireField _ _) fun _ b₁ _ => ?_) _
    exact recovers_of_atomic (Sessions.atomic_login moment.now moment.window email password) b₁
  | validate email key =>
    refine (recovers_of_atomic ?_ b).map _
    exact Sessions.atomic_validate moment.now moment.window email key
  | logout email key =>
    exact (recovers_gated hsessions email key (Backend.atomic_delete _ _)).map _
  | putObject email key id payload =>
    refine Recovers.map (.then (readOnly_requireField _ _) fun _ b₁ h₁ => ?_) _
    rw [← h₁] at hsessions
    exact recovers_gated hsessions email key (Objects.atomic_put id payload email)
  | getObject email key id =>
    exact (recovers_gated hsessions email key (Objects.readOnly_get id email).atomic).map _
  | deleteObject email key id =>
    exact (recovers_gated hsessions email key (Objects.atomic_delete id email)).map _
  | deleteAdmin key => exact absurd trivial hop
  | deleteUser proof email => exact absurd trivial hop

/-- An operation that deletes no account and fails while at most one fault fires leaves everything as
it was, except that the session which its caller presents, if it is live, may have a new expiry. -/
theorem contents_of_error {op : Operation} (hop : ¬ op.DeletesAccount) {e : AuthError}
    (hspaces : ∀ space ∈ namespaces, b.contents.Has space)
    (hadmins : ∀ key, b.contents.value? admins.name key ≠ some [])
    (hsessions : ∀ (email : String) (session : Session),
      (Sessions.get email).answer b.contents = .ok (some session) → session.email = email)
    (herror : ((op.run moment).run b).1 = .error e)
    (hfaults : b.faults.length ≤ ((op.run moment).run b).2.faults.length + 1) :
    ((op.run moment).run b).2.contents = b.contents ∨
      ∃ (session : Session) (expiry : Instant),
        op.session? = some (session.email, session.key) ∧
        (Sessions.get session.email).answer b.contents = .ok (some session) ∧
        session.expiresAt.notAfter moment.now = false ∧
        (moment.now.Plain → expiry.Plain ∧ expiry.toNanos
          = min (moment.now.toNanos + moment.window.toNanos) Instant.last.toNanos) ∧
        ((op.run moment).run b).2.contents = b.contents.write Sessions.space
          (Bytes.ofText session.email) (Record.encode { session with expiresAt := expiry }) := by
  have hspent := recovers_run hop hspaces hadmins hsessions e herror hfaults
  generalize ((op.run moment).run b).2.contents = c at hspent ⊢
  cases hspent with
  | unchanged => exact .inl rfl
  | @use email key session presents found live carries =>
    obtain ⟨rfl, hlasts⟩ := live
    subst carries
    refine .inr ⟨session, moment.now.expiry moment.window, presents, found, hlasts, ?_, rfl⟩
    exact fun hnow => ⟨Instant.plain_expiry hnow _, Instant.toNanos_expiry hnow _⟩

/-- The next key of an admin cannot be written. -/
def stuck : Fault := ⟨.put, Admins.keySpace, 0⟩

/-- A key that cannot be written is told, however the removal of the account ends. -/
theorem index_stuck (now : Instant) (email password : String) (c : Contents) :
    ∃ e, ((Admins.index now email password).run ⟨c, [stuck]⟩).1 = .error e := by
  have hput : (Backend.put Admins.keySpace (Bytes.ofText (Admins.newKey now password))
      (Bytes.ofText email)).run ⟨c, [stuck]⟩ = (.error (Backend.injected .put), ⟨c, []⟩) := rfl
  rw [Admins.index, run_andThen, hput]
  rcases run_bind_cases (admins.delete email)
      (fun _ => throw (Backend.injected .put) : Unit → Action String) ⟨c, []⟩
      with ⟨e, -, hrun⟩ | ⟨_, -, hrun⟩
  · exact ⟨e, congrArg Prod.fst hrun⟩
  · exact ⟨Backend.injected .put, congrArg Prod.fst hrun⟩

theorem bootstrapAdmin_stuck {c : Contents} {email : String}
    (hload : (admins.load email).answer c = .ok none) (moment : Moment) (password : String) :
    ∃ e, ((bootstrapAdmin moment email password).run ⟨c, [stuck]⟩).1 = .error e := by
  let account := Admins.newAccount moment.now email password
  have hofEmail := Admins.ignores_ofEmail (show ∀ f ∈ [stuck], _ by decide) email c
  have hinsert : (admins.insert account).Ignores [stuck] :=
    IdentitySpace.ignores_insert (by decide) (by decide) account
  have hinserted : ((admins.insert account).on c).1 = .ok () := by
    rw [IdentitySpace.on_insert, show account.email = email from rfl, hload]
  rw [(Admins.readOnly_ofEmail email).on_eq, Admins.answer_ofEmail, hload] at hofEmail
  obtain ⟨e, herror⟩ := index_stuck moment.now email password ((admins.insert account).on c).2
  have hcreate : ((Admins.create moment.now email password).run ⟨c, [stuck]⟩).1 = .error e := by
    rw [Admins.create_eq, run_bind_ok ((hinsert c).trans (by rw [hinserted]))]
    exact herror
  rw [bootstrapAdmin, run_andThen, hofEmail]
  exact ⟨e, congrArg Prod.fst (run_bind_error (Prod.ext hcreate rfl))⟩

/-- The first admin of a new service, whose key cannot be written, leaves no account behind. -/
theorem contents_ann_stuck : ((ann.1.run ann.2).run ⟨initial, [stuck]⟩).2.contents = initial := by
  obtain ⟨e, hstuck⟩ := bootstrapAdmin_stuck (load_initial admins "ann") ann.2 "pass"
  have herror : ((ann.1.run ann.2).run ⟨initial, [stuck]⟩).1 = .error e :=
    (congrArg Prod.fst (run_map _ _ _)).trans (congrArg (Except.map Answer.newKey) hstuck)
  have hfaults : [stuck].length ≤ ((ann.1.run ann.2).run ⟨initial, [stuck]⟩).2.faults.length + 1 :=
    Nat.le_add_left 1 _
  have hop : ¬ ann.1.DeletesAccount := id
  have hadmins : ∀ key, initial.value? admins.name key ≠ some [] := by
    intro key
    rw [value?_initial]
    exact nofun
  have hsessions : ∀ (email : String) (session : Session),
      (Sessions.get email).answer initial = .ok (some session) → session.email = email := by
    intro email session hget
    obtain ⟨value, hvalue, -⟩ := Backend.answer_getRecord_eq_some_iff.1 hget
    rw [value?_initial] at hvalue
    cases hvalue
  rcases contents_of_error (b := ⟨initial, [stuck]⟩) hop (fun space => (has_initial space).2)
      hadmins hsessions herror hfaults with hkept | ⟨session, expiry, hpresents, -⟩
  · exact hkept
  · cases hpresents

end Service

end AuthVault
