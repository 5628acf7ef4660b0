import AuthVault.Proofs.Service

/-!
# Deletions of accounts that fail

A deletion removes the account, then the session, then the objects one by one, and nothing is put
back where it stops. `deleteUser_of_error` tells what a failed deletion leaves. If the account is
still there, everything is as before, and so it is whenever a deletion is refused. If it is gone,
the caller was entitled to delete it, the session of the email is there or gone, objects of the
email are missing only if the session is gone, and all else is as before (`Halfway`). The latter
happens only if a fault has fired or something of what was to be removed could not be read: where
neither is the case, a deletion happens as a whole or not at all (`on_deleteUser`).
-/

namespace AuthVault.Service

open AuthVault.Action Contents
open IdentitySpace (users admins)

variable {c c' : Contents} {b : Backend} {moment : Moment} {listing : Listing Bytes}
  {proof : DeletionProof} {email : String}

/-- What a deletion leaves that has stopped after the account. -/
inductive Halfway (email : String) (c : Contents) : Contents → Prop
  | account : Halfway email c (c.remove users.name (Bytes.ofText email))
  | session {c' c'' : Contents}
      (cleared : Sessions.Cleared email (c.remove users.name (Bytes.ofText email)) c')
      (purged : Objects.Purged email c' c'') : Halfway email c c''

/-- Whether the session of an email and all objects can be read. -/
structure Deletable (c : Contents) (email : String) : Prop where
  session : ∃ found, (Sessions.get email).answer c = .ok found
  objects : Objects.Readable c

theorem Deletable.remove_account (h : Deletable c email) :
    Deletable (c.remove users.name (Bytes.ofText email)) email := by
  have hdiffer : Differ (fun s _ => s = users.name) c (c.remove users.name (Bytes.ofText email)) :=
    .remove rfl
  refine ⟨?_, h.objects.differ hdiffer fun _ => by decide⟩
  obtain ⟨found, hfound⟩ := h.session
  exact ⟨found, (Backend.answer_getRecord_of_differ hdiffer (by decide)).trans hfound⟩

theorem readable_of_cleared (h : Sessions.Cleared email c c') (hread : Objects.Readable c) :
    Objects.Readable c' := by
  have hdiffer : Differ (fun s _ => s = Sessions.space) c c' := h.differ rfl
  exact hread.differ hdiffer fun _ => by decide

/-- The part of a deletion that changes something. -/
def cascade (listing : Listing Bytes) (email : String) : Action Unit := do
  users.delete email
  let _ ← Sessions.clear email
  let _ ← Objects.deleteAllIn listing email

theorem deleteUser_eq (moment : Moment) (proof : DeletionProof) (email : String) :
    deleteUser moment proof email = requireField "email" email >>= fun _ =>
      checkProof proof email >>= fun _ => cascade moment.listing email := rfl

/-! ### Deletions that come to their end -/

/-- What a deletion leaves that has come to its end. -/
def Erased (email : String) (c c'' : Contents) : Prop :=
  ∃ c', Sessions.Cleared email (c.remove users.name (Bytes.ofText email)) c' ∧
    Objects.Purged email c' c'' ∧ ∀ id object, (Objects.load id).answer c' = .ok (some object) →
      object.owner = email → c''.value? Objects.space (Bytes.ofText id) = none

namespace Erased

variable {c'' : Contents}

theorem differ (h : Erased email c c'') : Differ (fun s k =>
    s = users.name ∧ k = Bytes.ofText email ∨ s = Sessions.space ∧ k = Bytes.ofText email ∨
      s = Objects.space) c c'' := by
  obtain ⟨c', hcleared, hpurged, -⟩ := h
  refine (Differ.remove (.inl ⟨rfl, rfl⟩)).trans ?_
  refine (hcleared.differ (.inr (.inl ⟨rfl, rfl⟩))).trans ?_
  exact hpurged.differ fun _ _ _ _ => .inr (.inr rfl)

/-- A deletion stores nothing. -/
theorem value?_of_some (h : Erased email c c'') {s : String} {k value : Bytes}
    (hvalue : c''.value? s k = some value) : c.value? s k = some value := by
  obtain ⟨c', hcleared, hpurged, -⟩ := h
  exact value?_of_remove (hcleared.value?_of_some (hpurged.value?_of_some hvalue))

theorem session (h : Erased email c c'') {value : Bytes}
    (hvalue : c''.value? Sessions.space (Bytes.ofText email) = some value) : value = [] := by
  obtain ⟨c', hcleared, hpurged, -⟩ := h
  have hvalue' := hpurged.value?_of_some hvalue
  obtain ⟨-, hnone | hempty⟩ := Backend.answer_getRecord_eq_none_iff.1 hcleared.answer_get
  · rw [hnone] at hvalue'
    contradiction
  · rw [hempty] at hvalue'
    exact (Option.some.inj hvalue').symm

theorem object (h : Erased email c c'') {id : String} {object : StoredObject}
    (hload : (Objects.load id).answer c'' = .ok (some object)) : object.owner ≠ email := by
  obtain ⟨c', -, hpurged, hgone⟩ := h
  intro howner
  obtain ⟨value, hvalue, hne, hdecode⟩ := Backend.answer_getRecord_eq_some_iff.1 hload
  have hload' : (Objects.load id).answer c' = .ok (some object) :=
    Backend.answer_getRecord_eq_some_iff.2 ⟨value, hpurged.value?_of_some hvalue, hne, hdecode⟩
  rw [hgone id object hload' howner] at hvalue
  contradiction

end Erased

theorem on_cascade {account : Account} (hload : (users.load email).answer c = .ok (some account))
    (hread : Deletable c email) :
    ∃ c', (cascade listing email).on c = (.ok (), c') ∧ Erased email c c' := by
  have haccount := IdentitySpace.on_delete users email c
  rw [hload] at haccount
  obtain ⟨found, hfound⟩ := hread.remove_account.session
  obtain ⟨existed, c₁, hclear, hcleared⟩ := Sessions.on_clear_of_readable hfound
  obtain ⟨n, c₂, hobjects, hpurged, hgone⟩ := Objects.on_deleteAllIn
    (readable_of_cleared hcleared hread.remove_account.objects) listing email
  refine ⟨c₂, ?_, c₁, hcleared, hpurged, hgone⟩
  rw [cascade, on_bind_ok (IdentitySpace.atomic_delete users email).steady haccount,
    on_bind_ok (Sessions.atomic_clear email).steady hclear,
    on_bind_ok (Objects.steady_deleteAllIn listing email) hobjects]
  rfl

/-- Where nothing that is to be removed is unreadable, a deletion that is due comes to its end. -/
theorem on_deleteUser {account : Account} (hemail : email ≠ "") (hentitled : Entitled c email proof)
    (hload : (users.load email).answer c = .ok (some account)) (hread : Deletable c email) :
    ∃ c', (deleteUser moment proof email).on c = (.ok (), c') ∧ Erased email c c' := by
  obtain ⟨c', hcascade, herased⟩ := on_cascade hload hread
  refine ⟨c', ?_, herased⟩
  rw [deleteUser_eq, (readOnly_requireField _ _).on_ok (answer_requireField hemail c),
    (readOnly_checkProof proof email).on_ok (answer_checkProof_eq_ok_iff.2 hentitled), hcascade]

/-- Where nothing that is to be removed is unreadable, a deletion fails and changes nothing, or comes
to its end. -/
theorem deleteUser_cases (hread : Deletable c email) (moment : Moment) (proof : DeletionProof) :
    (∃ e, (deleteUser moment proof email).on c = (.error e, c)) ∨
      ∃ c', (deleteUser moment proof email).on c = (.ok (), c') ∧ Erased email c c' := by
  rw [deleteUser_eq]
  cases hfield : (requireField "email" email).answer c with
  | error e => exact .inl ⟨e, (readOnly_requireField _ _).on_error hfield⟩
  | ok _ =>
    rw [(readOnly_requireField _ _).on_ok hfield]
    cases hproof : (checkProof proof email).answer c with
    | error e => exact .inl ⟨e, (readOnly_checkProof proof email).on_error hproof⟩
    | ok _ =>
      rw [(readOnly_checkProof proof email).on_ok hproof]
      have hdelete := (IdentitySpace.atomic_delete users email).steady
      have haccount := IdentitySpace.on_delete users email c
      rcases hload : (users.load email).answer c with e | _ | account
      all_goals rw [hload] at haccount
      · exact .inl ⟨e, on_bind_error hdelete haccount⟩
      · exact .inl ⟨_, on_bind_error hdelete haccount⟩
      · exact .inr (on_cascade hload hread)

/-! ### Deletions that fail -/

theorem contents_cascade {e : AuthError} (h : ((cascade listing email).run b).1 = .error e) :
    ((cascade listing email).run b).2.contents = b.contents ∨
      (∃ account, (users.load email).answer b.contents = .ok (some account)) ∧ e.status = 500 ∧
        Halfway email b.contents ((cascade listing email).run b).2.contents := by
  unfold cascade at h ⊢
  rcases run_bind_cases (users.delete email) _ b with ⟨e₁, herror, hrun⟩ | ⟨_, hok, hrun⟩
  all_goals rw [hrun] at h ⊢
  · exact .inl ((IdentitySpace.atomic_delete users email).of_error herror)
  obtain ⟨hload, haccount⟩ := IdentitySpace.delete_of_ok hok
  refine .inr ⟨hload, ?_⟩
  generalize ((users.delete email).run b).2 = b₁ at h haccount ⊢
  rcases run_bind_cases (Sessions.clear email) _ b₁ with ⟨e₂, herror, hrun⟩ | ⟨existed, hok, hrun⟩
  all_goals rw [hrun] at h ⊢
  · rw [(Sessions.atomic_clear email).of_error herror, haccount]
    exact ⟨Except.error.inj h ▸ Sessions.internal_clear email _ _ herror, .account⟩
  have hcleared := Sessions.cleared_of_ok hok
  rw [haccount] at hcleared
  generalize ((Sessions.clear email).run b₁).2 = b₂ at h hcleared ⊢
  rcases run_bind_cases (Objects.deleteAllIn listing email) _ b₂ with ⟨e₃, herror, hrun⟩ | ⟨n, -, hrun⟩
  all_goals rw [hrun] at h ⊢
  · exact ⟨Except.error.inj h ▸ Objects.internal_deleteAllIn listing email _ _ herror,
      .session hcleared (Objects.purged_deleteAllIn listing email b₂)⟩
  · contradiction

/-- A deletion that fails has changed nothing, or stops after the account. -/
theorem contents_deleteUser {e : AuthError} (h : ((deleteUser moment proof email).run b).1 = .error e) :
    ((deleteUser moment proof email).run b).2.contents = b.contents ∨
      email ≠ "" ∧ Entitled b.contents email proof ∧
        (∃ account, (users.load email).answer b.contents = .ok (some account)) ∧ e.status = 500 ∧
        Halfway email b.contents ((deleteUser moment proof email).run b).2.contents := by
  rw [deleteUser_eq] at h ⊢
  rcases (readOnly_requireField "email" email).run_bind_cases _ b
      with hsame | ⟨_, b₁, hb₁, hfield, hrun⟩
  · exact .inl hsame
  rw [hrun] at h ⊢
  rcases (readOnly_checkProof proof email).run_bind_cases _ b₁
      with hsame | ⟨_, b₂, hb₂, hproof, hrun⟩
  · exact .inl (hsame.trans hb₁)
  rw [hrun] at h ⊢
  rw [hb₁] at hb₂ hproof
  have hcascade := contents_cascade h
  rw [hb₂] at hcascade
  exact hcascade.imp id fun hhalf =>
    ⟨ne_empty_of_requireField hfield, answer_checkProof_eq_ok_iff.1 hproof, hhalf⟩

/-- A deletion that fails has changed nothing, or stops after the account for want of what it needs
next: a fault has fired, or the session or an object cannot be read. One that is refused has changed
nothing. -/
theorem deleteUser_of_error {e : AuthError} (h : ((deleteUser moment proof email).run b).1 = .error e) :
    ((deleteUser moment proof email).run b).2.contents = b.contents ∨
      e.status = 500 ∧ Entitled b.contents email proof ∧
        (∃ account, (users.load email).answer b.contents = .ok (some account)) ∧
        Halfway email b.contents ((deleteUser moment proof email).run b).2.contents ∧
        (((deleteUser moment proof email).run b).2.faults.length < b.faults.length ∨
          ¬ Deletable b.contents email) := by
  rcases contents_deleteUser h with hsame | ⟨hemail, hentitled, ⟨account, hload⟩, hstatus, hhalf⟩
  · exact .inl hsame
  refine .inr ⟨hstatus, hentitled, ⟨account, hload⟩, hhalf, ?_⟩
  rcases steady_deleteUser moment proof email b with hb | hfired
  · right
    intro hread
    obtain ⟨c', hon, -⟩ := on_deleteUser hemail hentitled hload hread
    rw [hb.on_eq, h] at hon
    cases congrArg Prod.fst hon
  · exact .inl hfired

/-- A user whose session cannot be read. -/
def garbled : Contents :=
  (initial.write users.name (Bytes.ofText "ann")
    (Record.encode (⟨"ann", .register "pass" "seed", none⟩ : Account))).write
      Sessions.space (Bytes.ofText "ann") [0]

theorem load_garbled :
    (users.load "ann").answer garbled = .ok (some ⟨"ann", .register "pass" "seed", none⟩) := by
  exact (Backend.answer_getRecord_write_of_ne (by decide)).trans
    (Backend.answer_getRecord_write ((has_initial _).2 (by decide)) _)

theorem get_garbled : (Sessions.get "ann").answer (garbled.remove users.name (Bytes.ofText "ann"))
    = .error (.codec .malformed) := by
  refine Backend.answer_getRecord_of_decode_error ?_ (List.cons_ne_nil 0 []) rfl
  rw [value?_remove_of_ne (by decide)]
  exact value?_write_self ((has_write _ _).2 ((has_initial _).2 (by decide))) _

theorem on_cascade_garbled (listing : Listing Bytes) : (cascade listing "ann").on garbled
    = (.error (.codec .malformed), garbled.remove users.name (Bytes.ofText "ann")) := by
  have haccount := IdentitySpace.on_delete users "ann" garbled
  have hclear := Sessions.on_clear "ann" (garbled.remove users.name (Bytes.ofText "ann"))
  rw [load_garbled] at haccount
  rw [get_garbled] at hclear
  rw [cascade, on_bind_ok (IdentitySpace.atomic_delete users "ann").steady haccount,
    on_bind_error (Sessions.atomic_clear "ann").steady hclear]

theorem on_deleteUser_garbled : (deleteUser .first (.password "pass") "ann").on garbled
    = (.error (.codec .malformed), garbled.remove users.name (Bytes.ofText "ann")) := by
  have hentitled : Entitled garbled "ann" (.password "pass") :=
    ⟨_, load_garbled, Credential.verify_register _ _⟩
  rw [deleteUser_eq, (readOnly_requireField _ _).on_ok (answer_requireField (by decide) garbled),
    (readOnly_checkProof _ _).on_ok (answer_checkProof_eq_ok_iff.2 hentitled), on_cascade_garbled]

theorem remove_garbled_ne : garbled.remove users.name (Bytes.ofText "ann") ≠ garbled := by
  intro hsame
  obtain ⟨value, hvalue, -⟩ := Backend.answer_getRecord_eq_some_iff.1 load_garbled
  rw [← hsame, value?_remove_self] at hvalue
  contradiction

theorem deleteUser_halfway_garbled :
    ((deleteUser .first (.password "pass") "ann").run ⟨garbled, []⟩).1 = .error (.codec .malformed) ∧
      Halfway "ann" garbled
        ((deleteUser .first (.password "pass") "ann").run ⟨garbled, []⟩).2.contents := by
  have herror : ((deleteUser .first (.password "pass") "ann").run ⟨garbled, []⟩).1
      = .error (.codec .malformed) := by rw [run_fst, on_deleteUser_garbled]
  refine ⟨herror, ?_⟩
  rcases deleteUser_of_error herror with hsame | ⟨-, -, -, hhalf, -⟩
  · rw [run_contents, on_deleteUser_garbled] at hsame
    exact absurd hsame remove_garbled_ne
  · exact hhalf

/-- The account of a user whose session cannot be read is gone although its deletion fails. -/
theorem deleteUser_partial_garbled :
    ((deleteUser .first (.password "pass") "ann").run ⟨garbled, []⟩).1 = .error (.codec .malformed) ∧
      ((deleteUser .first (.password "pass") "ann").run ⟨garbled, []⟩).2.contents ≠ garbled := by
  rw [run_fst, run_contents, on_deleteUser_garbled]
  exact ⟨rfl, remove_garbled_ne⟩

end AuthVault.Service
