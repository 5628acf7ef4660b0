import AuthVault.Proofs.Service.Filing
import AuthVault.Proofs.Service.Run

/-!
# The order of keys makes no difference

Only the deletion of a user goes through the keys of a namespace, and a backend may list them in any
order. Where every object can be read, any order leads to the same answer and the same contents
(`on_run_congr`): the objects of the user are removed, one way or the other. And where every object can
be read, that stays so (`readable_of_adds`), because an operation stores objects that can be read, if
any.
-/

namespace AuthVault.Service

open AuthVault.Action Contents
open IdentitySpace (users)
open Objects (Readable)

variable {α : Type} {c c' : Contents} {ids : String → Prop}

/-! ### Objects that can be read -/

/-- What is added is in its place and can be read. -/
theorem readable_of_adds (h : Readable c) (hadds : Adds (Filed ids) c c') :
    Readable c' := by
  intro id
  obtain ⟨found, hfound⟩ := h id
  have hhas := (hadds.has_iff _).2 (Backend.has_of_answer_getRecord hfound)
  cases hv : c'.value? Objects.space (Bytes.ofText id) with
  | none => exact ⟨none, Backend.answer_getRecord_eq_none_iff.2 ⟨hhas, .inl hv⟩⟩
  | some v =>
    rcases hadds.of_value? _ _ v hv with hbefore | hfiled
    · exact ⟨found, (Backend.answer_getRecord_congr (hadds.has_iff _)
        (hv.trans hbefore.symm)).trans hfound⟩
    · obtain ⟨object, -, -, rfl⟩ := hfiled.of_object
      exact ⟨some object, Backend.answer_getRecord_of_value? hv⟩

theorem readable_of_on {x : Action α} {answer : Except AuthError α}
    (hx : Stores (Filed ids) x) (h : Readable c) (hon : x.on c = (answer, c')) : Readable c' := by
  have hrun : (x.on c).2 = c' := congrArg Prod.snd hon
  exact hrun ▸ readable_of_adds h (hx ⟨c, []⟩)

/-! ### Any order -/

/-- What a step asks for, in whatever order keys are listed. -/
def asked (step : Operation × Moment) : Operation × Instant × Duration :=
  (step.1, step.2.now, step.2.window)

/-- Where every object can be read, the order of keys makes no difference to a deletion. -/
theorem on_deleteUser_congr (h : Readable c) (moment moment' : Moment) (proof : DeletionProof)
    (email : String) :
    (deleteUser moment' proof email).on c = (deleteUser moment proof email).on c := by
  refine on_bind_congr (readOnly_requireField _ _).steady fun _ c₁ h₁ => ?_
  refine on_bind_congr (readOnly_checkProof proof email).steady fun _ c₂ h₂ => ?_
  refine on_bind_congr (IdentitySpace.atomic_delete users email).steady fun _ c₃ h₃ => ?_
  refine on_bind_congr (Sessions.atomic_clear email).steady fun _ c₄ h₄ => ?_
  let unnamed : String → Prop := fun _ => False
  have hfield : Stores (Filed unnamed) (requireField "email" email) :=
    stores_of_readOnly (readOnly_requireField _ _)
  have hproof : Stores (Filed unnamed) (checkProof proof email) :=
    stores_of_readOnly (readOnly_checkProof proof email)
  have haccount : Stores (Filed unnamed) (users.delete email) := stores_deleteAccount users email
  have hclear : Stores (Filed unnamed) (Sessions.clear email) := stores_clear email
  have hread : Readable c₄ := readable_of_on hclear (readable_of_on haccount
    (readable_of_on hproof (readable_of_on hfield h h₁) h₂) h₃) h₄
  obtain ⟨n, c', hon, hemptied⟩ := Objects.on_deleteAllIn hread moment.listing email
  obtain ⟨m, c'', hon', hemptied'⟩ := Objects.on_deleteAllIn hread moment'.listing email
  rw [on_bind_ok (Objects.steady_deleteAllIn moment.listing email) hon,
    on_bind_ok (Objects.steady_deleteAllIn moment'.listing email) hon', hemptied.unique hemptied']

/-- Where every object can be read, an operation answers and leaves the same in whatever order keys
are listed. -/
theorem on_run_congr (h : Readable c) {step step' : Operation × Moment}
    (hasked : asked step' = asked step) :
    (step'.1.run step'.2).on c = (step.1.run step.2).on c := by
  obtain ⟨op, now, window, listing⟩ := step
  obtain ⟨op', now', window', listing'⟩ := step'
  cases hasked
  cases op with
  | deleteUser proof email =>
    rw [Operation.run, Operation.run, on_map, on_map, on_deleteUser_congr h]
  | _ => rfl

end AuthVault.Service
