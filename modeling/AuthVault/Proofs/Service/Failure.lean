import AuthVault.Proofs.Service.Interruption

/-!
# What a failure leaves

Where everything is in order and no fault is armed, an operation that fails leaves everything as it
was, or it has used the session that its caller presents and changed nothing else
(`Sound.fruitless_run`). For most operations that is a case of what an interruption leaves
(`recovers_run`), with no fault to fire. The deletions of an admin and of a user, which go on after a
change, find each entry that they still need, so they do not fail half-way.
-/

namespace AuthVault.Service

open AuthVault.Action Contents
open IdentitySpace (users admins)

variable {α β : Type} {c : Contents} {moment : Moment} {presented : Option (String × String)}

/-- Where the action fails on contents, without a fault, it has used a session at most. -/
def Fruitless (moment : Moment) (presented : Option (String × String)) (x : Action α)
    (c : Contents) : Prop :=
  ∀ e, x.answer c = .error e → Spent moment presented c (x.on c).2

theorem fruitless_of_ok {x : Action α} {a : α} (h : x.answer c = .ok a) :
    Fruitless moment presented x c := by
  intro e herror
  rw [h] at herror
  contradiction

theorem fruitless_of_error {x : Action α} {e : AuthError} (h : x.on c = (.error e, c)) :
    Fruitless moment presented x c := by
  intro _ _
  rw [h]
  exact .unchanged

/-- Where no fault is armed, none fires. -/
theorem fruitless_of_recovers {x : Action α} (h : Recovers moment presented x ⟨c, []⟩) :
    Fruitless moment presented x c :=
  fun e herror => h e herror (Nat.zero_le _)

theorem Fruitless.map {x : Action α} (h : Fruitless moment presented x c) (g : α → β) :
    Fruitless moment presented (g <$> x) c := by
  intro e herror
  rw [answer_map] at herror
  rw [on_map]
  cases hanswer : x.answer c with
  | ok a => rw [hanswer] at herror; contradiction
  | error e' => exact h e' hanswer

namespace Sound

theorem fruitless_deleteAdmin (h : Sound c) (key : String) :
    Fruitless moment presented (Admins.delete key) c := by
  cases hauth : (Admins.authenticate key).answer c with
  | error e => exact fruitless_of_error (Admins.on_delete_error hauth)
  | ok account =>
    obtain ⟨-, email, -, -, hload⟩ := Admins.answer_authenticate_eq_ok_iff.1 hauth
    have hon := Admins.on_delete hauth ((h.email_of_load hload).symm ▸ hload)
    exact fruitless_of_ok (congrArg Prod.fst hon)

theorem fruitless_deleteUser (h : Sound c) (proof : DeletionProof) (email : String) :
    Fruitless moment presented (deleteUser moment proof email) c := by
  rcases deleteUser_cases (h.deletable email) moment proof with ⟨e, herror⟩ | ⟨c', hon, -⟩
  · exact fruitless_of_error herror
  · exact fruitless_of_ok (congrArg Prod.fst hon)

/-- An operation that fails has used the session that it presents, or changed nothing. -/
theorem fruitless_run (h : Sound c) (op : Operation) (moment : Moment) :
    Fruitless moment op.session? (op.run moment) c := by
  have hadmins : ∀ key, c.value? admins.name key ≠ some [] := by
    intro key hvalue
    obtain ⟨account, hne, -⟩ := (h.valid _ _ _ hvalue).account admins rfl
    exact hne rfl
  have hother : ∀ {op : Operation}, ¬ op.DeletesAccount →
      Fruitless moment op.session? (op.run moment) c := fun hop =>
    fruitless_of_recovers (recovers_run hop h.has hadmins fun _ _ hget => (h.of_get hget).1)
  cases op with
  | deleteAdmin key => exact (h.fruitless_deleteAdmin key).map _
  | deleteUser proof email => exact (h.fruitless_deleteUser proof email).map _
  | _ => exact hother id

end Sound

end AuthVault.Service
