import AuthVault.Proofs.Service.Custody
import AuthVault.Proofs.Service.Reached

/-!
# Deletions of accounts that succeed

In whatever state a service has got, a deletion of a user that succeeds removes the entries of that
user and nothing else: the account, the session and every object of the user (`Belongs`). It does
succeed where the user has an account and the caller is entitled, unless a fault fires; no record of
anybody is in its way. And no object that the user had is there again before someone puts it
(`erased_deleteUser`).

All records are in their places (`filed_reached`) and can be read, so the scan of the objects comes to
its end, and it finds each object of the user under its id.
-/

namespace AuthVault.Service

open AuthVault.Action Contents
open IdentitySpace (users admins)

variable {c c' : Contents} {moment : Moment} {email : String}

/-- The entries of a user. -/
inductive Belongs (c : Contents) (email : String) : String → Bytes → Prop
  | account : Belongs c email users.name (Bytes.ofText email)
  | session : Belongs c email Sessions.space (Bytes.ofText email)
  | object {key value : Bytes} {object : StoredObject}
      (stored : c.value? Objects.space key = some value) (read : Record.decode value = .ok object)
      (owned : object.owner = email) : Belongs c email Objects.space key

/-! ### Exactly the entries of the user -/

theorem Erased.gone (h : Erased email c c') (hc : Tidy c) {s : String} {k : Bytes}
    (hbelongs : Belongs c email s k) : c'.value? s k = none := by
  rw [Option.eq_none_iff_forall_ne_some]
  intro v hv
  have hbefore := h.value?_of_some hv
  cases hbelongs with
  | account =>
    obtain ⟨c₁, hcleared, hpurged, -⟩ := h
    have hremoved := hcleared.value?_of_some (hpurged.value?_of_some hv)
    rw [value?_remove_self] at hremoved
    contradiction
  | session =>
    obtain ⟨session, -, rfl⟩ := (hc.filed hbefore).of_session
    exact LawfulRecord.encode_ne_nil session (h.session hv)
  | @object _ _ object stored read owned =>
    obtain rfl := Option.some.inj (stored.symm.trans hbefore)
    obtain ⟨object', -, rfl, rfl⟩ := (hc.filed hbefore).of_object
    rw [LawfulRecord.decode_encode] at read
    obtain rfl := Except.ok.inj read
    exact h.object (Backend.answer_getRecord_of_value? hv) owned

theorem Erased.kept (h : Erased email c c') {s : String} {k : Bytes}
    (hbelongs : ¬ Belongs c email s k) : c'.value? s k = c.value? s k := by
  obtain ⟨c₁, hcleared, hpurged, -⟩ := h
  have hdiffer : Differ (fun s k => s = users.name ∧ k = Bytes.ofText email ∨
      s = Sessions.space ∧ k = Bytes.ofText email) c c₁ :=
    (Differ.remove (.inl ⟨rfl, rfl⟩)).trans (hcleared.differ (.inr ⟨rfl, rfl⟩))
  have hfirst : c₁.value? s k = c.value? s k := by
    apply hdiffer.value?_eq
    rintro (⟨rfl, rfl⟩ | ⟨rfl, rfl⟩)
    · exact hbelongs .account
    · exact hbelongs .session
  rcases hpurged.value?_eq s k with heq | ⟨-, rfl, id, object, rfl, hload, howner⟩
  · rw [heq, hfirst]
  · obtain ⟨v, hv, -, hdecode⟩ := Backend.answer_getRecord_eq_some_iff.1 hload
    exact absurd (.object (hfirst ▸ hv) hdecode howner) hbelongs

theorem Erased.without (h : Erased email c c') (hc : Tidy c) :
    Without (Belongs c email) c c' :=
  ⟨h.differ.has_iff, fun _ _ => h.gone hc, fun _ _ => h.kept⟩

/-! ### Deletions -/

theorem strict_deleteUser (moment : Moment) (proof : DeletionProof) (email : String) :
    (deleteUser moment proof email).Strict := by
  have hfield := (readOnly_requireField "email" email).atomic
  have hproof := (readOnly_checkProof proof email).atomic
  have haccount := IdentitySpace.atomic_delete users email
  have hclear := Sessions.atomic_clear email
  refine hfield.strict.bind hfield.steady fun _ => hproof.strict.bind hproof.steady fun _ => ?_
  refine haccount.strict.bind haccount.steady fun _ => ?_
  refine hclear.strict.bind hclear.steady fun _ => ?_
  refine (Objects.strict_deleteAllIn moment.listing email).bind ?_ fun _ => ?_
  · exact Objects.steady_deleteAllIn moment.listing email
  · exact (readOnly_pure _).atomic.strict

theorem without_of_deleteUser {b : Backend} (hc : Tidy b.contents) {proof : DeletionProof}
    (hok : ((deleteUser moment proof email).run b).1 = .ok ()) :
    Without (Belongs b.contents email) b.contents
      ((deleteUser moment proof email).run b).2.contents := by
  have hon := strict_deleteUser moment proof email _ _ hok
  rcases deleteUser_cases (hc.deletable email) moment proof
    with ⟨e, herror⟩ | ⟨c', hdeleted, herased⟩
  · cases hon.symm.trans herror
  · have hcontents : ((deleteUser moment proof email).run b).2.contents = c' :=
      congrArg Prod.snd (hon.symm.trans hdeleted)
    rw [hcontents]
    exact herased.without hc

/-- No record is in the way of a deletion that is due. -/
theorem deleteUser_of_entitled {b : Backend} (hc : Tidy b.contents) {proof : DeletionProof}
    (huser : HasUser b.contents email) (hentitled : Entitled b.contents email proof)
    (hfaults : ((deleteUser moment proof email).run b).2.faults.length = b.faults.length) :
    ((deleteUser moment proof email).run b).1 = .ok () := by
  obtain ⟨hemail, account, hload⟩ := hc.load_user huser
  obtain ⟨c', hon, -⟩ := on_deleteUser hemail hentitled hload (hc.deletable email)
  rcases steady_deleteUser moment proof email b with hb | hfired
  · exact congrArg Prod.fst (hb.on_eq.symm.trans hon)
  · exact absurd hfaults (Nat.ne_of_lt hfired)

/-- A deletion of a user that succeeds removes exactly the entries of the user, and no object that
the user had is there until someone puts one under its id; a deletion that is due does succeed,
unless a fault fires. -/
theorem erased_deleteUser (past : List Event) (moment : Moment) (proof : DeletionProof)
    (email : String) :
    let b := reached past
    let r := ((Operation.deleteUser proof email).run moment).run b
    (r.1 = .ok .done →
      Without (Belongs b.contents email) b.contents r.2.contents ∧
      ∀ id object, (Objects.load id).answer b.contents = .ok (some object) →
        object.owner = email → ∀ later : List Event, (∀ event ∈ later, ¬ event.Puts id) →
          (Objects.load id).answer
            (reached (later ++ .step (.deleteUser proof email, moment) :: past)).contents
              = .ok none) ∧
    (HasUser b.contents email → Entitled b.contents email proof →
      r.2.faults.length = b.faults.length → r.1 = .ok .done) := by
  intro b r
  have hb : Tidy b.contents := tidy_reached past
  have hrun : r = (((deleteUser moment proof email).run b).1.map fun _ => Answer.done,
      ((deleteUser moment proof email).run b).2) := run_map _ _ _
  refine ⟨fun hok => ?_, fun huser hentitled hfaults => ?_⟩
  · have hwithout : Without (Belongs b.contents email) b.contents r.2.contents := by
      rw [hrun] at hok ⊢
      cases hdeleted : ((deleteUser moment proof email).run b).1 with
      | error e => rw [hdeleted] at hok; contradiction
      | ok _ => exact without_of_deleteUser hb hdeleted
    refine ⟨hwithout, fun id object hload howner later hputs => ?_⟩
    obtain ⟨value, hvalue, -, hdecode⟩ := Backend.answer_getRecord_eq_some_iff.1 hload
    have hgone := hwithout.gone _ _ (.object hvalue hdecode howner)
    exact Backend.answer_getRecord_eq_none_iff.2
      ⟨(tidy_reached _).has _ (by decide), .inl (value?_reached_append later hgone hputs)⟩
  · rw [hrun] at hfaults ⊢
    rw [deleteUser_of_entitled hb huser hentitled hfaults]
    rfl

/-- A user with a session and an object leaves, with the keys listed in descending order. The object is
gone, also for the user who is registered anew and logs in. -/
theorem erased_deleteUser_eve :
    let past : List Event := settled.map .step
    let moment : Moment := ⟨.first, Sessions.defaultWindow, .descending⟩
    let r := ((Operation.deleteUser (.password "word") "eve").run moment).run (reached past)
    let again : List Event :=
      [.step (.login "eve" "word", .first), .step (.createUser annKey "eve" "word", .first)]
    (∃ session, (Sessions.get "eve").answer (reached past).contents = .ok (some session)) ∧
      (Objects.load "note").answer (reached past).contents
        = .ok (some ⟨"note", [1], ⟨"eve"⟩⟩) ∧
      r.1 = .ok .done ∧
      Without (Belongs (reached past).contents "eve") (reached past).contents r.2.contents ∧
      r.2.contents.value? Sessions.space (Bytes.ofText "eve") = none ∧
      (Objects.load "note").answer (reached
        (again ++ .step (.deleteUser (.password "word") "eve", moment) :: past)).contents
          = .ok none := by
  intro past moment r again
  have hpast : reached past = after settled := reached_map_step settled
  have hregistered := registered_settled
  have hsession := get_settled
  have hload := load_settled
  rw [← hpast] at hregistered hsession hload
  have hrun : ((Operation.deleteUser (.password "word") "eve").run moment).run (reached past) = r :=
    rfl
  have hnone : r.2.faults.length = (reached past).faults.length := by
    rw [← hrun, hpast, after_eq, run_eq_on (steady_run _ moment)]
  obtain ⟨hexact, hdue⟩ := erased_deleteUser past moment (.password "word") "eve"
  rw [hrun] at hexact hdue
  have huser : HasUser (reached past).contents "eve" := ⟨_, hregistered⟩
  have hentitled : Entitled (reached past).contents "eve" (.password "word") :=
    password_of_registered hregistered
  have hok := hdue huser hentitled hnone
  obtain ⟨hwithout, hgone⟩ := hexact hok
  refine ⟨hsession, hload, hok, hwithout, hwithout.gone _ _ .session, ?_⟩
  refine hgone "note" _ hload rfl again fun event hevent => ?_
  rcases List.mem_cons.1 hevent with rfl | hevent
  · exact id
  · rw [List.mem_singleton.1 hevent]
    exact id

end AuthVault.Service
