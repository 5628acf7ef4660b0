import AuthVault.Proofs.Service.Authority
import AuthVault.Proofs.Service.Integrity

/-!
# Runs without faults

`after past` is what a new service has become by the operations of `past`, the latest first, each at
its moment, and `reply` is what one more operation answers. No fault is ever armed there
(`after_eq`), so a state is in order (`sound_after`), and its contents tell what the next operation
answers and leaves (`step_of_on`). What each operation since a time has kept holds still
(`kept_after`).

An operation writes to the namespaces of `Operation.spaces` only (`differ_spaces`). An invariant on
the entries of one namespace is thus kept by all operations but a few, which have to be looked at.
-/

namespace AuthVault.Service

open AuthVault.Action Contents
open IdentitySpace (users admins)

/-- What a new service has become by operations, the latest first. -/
def after : (past : List (Operation × Moment)) → Backend
  | [] => (setup.run Backend.empty).2
  | step :: past => ((step.1.run step.2).run (after past)).2

/-- What an operation answers after others. -/
def reply (past : List (Operation × Moment)) (step : Operation × Moment) :
    Except AuthError Answer :=
  ((step.1.run step.2).run (after past)).1

theorem after_eq (past : List (Operation × Moment)) : after past = ⟨(after past).contents, []⟩ := by
  induction past with
  | nil => rw [after, run_setup]
  | cons step past ih => rw [after, ih, run_eq_on (steady_run step.1 step.2)]

theorem reply_eq (past : List (Operation × Moment)) (step : Operation × Moment) :
    reply past step = (step.1.run step.2).answer (after past).contents := by
  rw [reply, after_eq, run_fst]
  rfl

theorem contents_after_cons (step : Operation × Moment) (past : List (Operation × Moment)) :
    (after (step :: past)).contents = ((step.1.run step.2).on (after past).contents).2 := by
  rw [after, after_eq past, run_contents]

/-- An operation answers and leaves what its action does to the contents. -/
theorem step_of_on {α : Type} {x : Action α} {g : α → Answer} {r : Except AuthError α}
    {c' : Contents} {past : List (Operation × Moment)} (op : Operation) (moment : Moment)
    (hop : op.run moment = g <$> x) (hon : x.on (after past).contents = (r, c')) :
    reply past (op, moment) = r.map g ∧ (after ((op, moment) :: past)).contents = c' := by
  rw [reply_eq, contents_after_cons, answer, hop, on_map, hon]
  exact ⟨rfl, rfl⟩

theorem sound_after (past : List (Operation × Moment)) : Sound (after past).contents := by
  induction past with
  | nil =>
    rw [after, run_setup]
    exact sound_initial
  | cons step past ih =>
    rw [contents_after_cons]
    exact keeps_run step.1 step.2 _ ih

/-- What holds at some time, and is kept by each operation since, holds still. -/
theorem kept_after {P : Contents → Prop} {past : List (Operation × Moment)}
    (later : List (Operation × Moment)) (h : P (after past).contents)
    (hstep : ∀ newer step older, later = newer ++ step :: older →
      P (after (older ++ past)).contents → P (after (step :: (older ++ past))).contents) :
    P (after (later ++ past)).contents := by
  induction later with
  | nil => exact h
  | cons s later ih =>
    have hlater : P (after (later ++ past)).contents :=
      ih fun newer step older heq => hstep (s :: newer) step older (by rw [heq]; rfl)
    exact hstep [] s later rfl hlater

/-! ### Namespaces that an operation writes to -/

def Operation.spaces : Operation → List String
  | .bootstrapAdmin _ _ | .createAdmin _ _ _ | .deleteAdmin _ => Admins.namespaces
  | .checkAdmin _ => []
  | .createUser _ _ _ => [users.name]
  | .deleteUser _ _ => [users.name, Sessions.space, Objects.space]
  | .login _ _ | .validate _ _ | .logout _ _ | .getObject _ _ _ => [Sessions.space]
  | .putObject _ _ _ _ | .deleteObject _ _ _ => [Sessions.space, Objects.space]

/-- An operation is permitted to change entries of these namespaces only. -/
theorem Permitted.mem_spaces {moment : Moment} {c : Contents} {op : Operation} {space : String}
    {k : Bytes} (h : Permitted moment c op space k) : space ∈ op.spaces := by
  cases h with
  | session presents => cases op <;> first | exact List.mem_cons_self | contradiction
  | newUser | oldUser | newAdmin | oldAdmin | newSession => exact List.mem_cons_self
  | oldUserSession | newAdminKey | oldAdminKey | object | oldObject =>
    exact List.mem_cons_of_mem _ List.mem_cons_self
  | oldUserObject =>
    exact List.mem_cons_of_mem _ (List.mem_cons_of_mem _ List.mem_cons_self)

theorem differ_bootstrapAdmin {moment : Moment} {b : Backend} (email password : String) :
    Differ (fun s _ => s ∈ Admins.namespaces) b.contents
      ((bootstrapAdmin moment email password).run b).2.contents := by
  apply differ_andThen ((Admins.readOnly_ofEmail email).differ b)
  intro r b'
  rcases r with e | account
  · cases e with
    | notFound _ =>
      refine differ_bind (Admins.differ_create (fun _ => ?_) fun _ => ?_) fun _ _ => .refl _
      · exact List.mem_cons_self
      · exact List.mem_cons_of_mem _ List.mem_cons_self
    | _ => exact .refl _
  · exact .refl _

/-- No operation changes an entry of a namespace that it does not write to. -/
theorem differ_spaces (op : Operation) (moment : Moment) (b : Backend) :
    Differ (fun s _ => s ∈ op.spaces) b.contents ((op.run moment).run b).2.contents := by
  have hpermitted : ∀ s k, Permitted moment b.contents op s k → s ∈ op.spaces :=
    fun _ _ h => h.mem_spaces
  have huse : ∀ (b : Backend) {P : String → Bytes → Prop} (email key : String),
      (∀ k, P Sessions.space k) →
        Differ P b.contents ((validate moment email key).run b).2.contents :=
    fun _ _ _ _ hP => Sessions.differ_validate fun _ _ _ => hP _
  cases op with
  | bootstrapAdmin email password => exact differ_map _ (differ_bootstrapAdmin email password)
  | checkAdmin key => exact differ_map _ ((Admins.readOnly_authenticate key).differ b)
  | createAdmin key email password =>
    exact differ_map _ ((differ_createAdmin key email password).mono hpermitted)
  | deleteAdmin key => exact differ_map _ ((differ_deleteAdmin key).mono hpermitted)
  | createUser key email password =>
    exact differ_map _ ((differ_createUser key email password).mono hpermitted)
  | deleteUser proof email => exact differ_map _ ((differ_deleteUser proof email).mono hpermitted)
  | login email password => exact differ_map _ ((differ_login email password).mono hpermitted)
  | validate email key => exact differ_map _ (huse b email key fun _ => List.mem_cons_self)
  | logout email key =>
    exact differ_map _ (differ_bind (huse b email key fun _ => List.mem_cons_self) fun _ _ =>
      Backend.differ_delete List.mem_cons_self _)
  | putObject email key id payload =>
    refine differ_map _ (differ_bind ((readOnly_requireField _ _).differ b) fun _ _ => ?_)
    exact differ_bind (huse _ email key fun _ => List.mem_cons_self) fun _ _ =>
      Objects.differ_put fun _ _ _ => List.mem_cons_of_mem _ List.mem_cons_self
  | getObject email key id =>
    exact differ_map _ (differ_bind (huse b email key fun _ => List.mem_cons_self) fun _ _ =>
      (Objects.readOnly_get id email).differ _)
  | deleteObject email key id =>
    exact differ_map _ (differ_bind (huse b email key fun _ => List.mem_cons_self) fun _ _ =>
      Objects.differ_delete fun _ _ _ => List.mem_cons_of_mem _ List.mem_cons_self)

/-- An entry of a namespace that an operation does not write to is as before. -/
theorem value?_after_cons {space : String} {op : Operation} {moment : Moment}
    (past : List (Operation × Moment)) (h : space ∉ op.spaces) (k : Bytes) :
    (after ((op, moment) :: past)).contents.value? space k = (after past).contents.value? space k :=
  (differ_spaces op moment (after past)).value?_eq h

theorem answer_getRecord_after_cons {α : Type} [Record α] {space : String} {op : Operation}
    {moment : Moment} (past : List (Operation × Moment)) (h : space ∉ op.spaces) (key : String) :
    (Backend.getRecord (α := α) space key).answer (after ((op, moment) :: past)).contents
      = (Backend.getRecord (α := α) space key).answer (after past).contents :=
  Backend.answer_getRecord_of_differ (differ_spaces op moment (after past)) h

/-- What later operations have nothing to do with is found as before. -/
theorem answer_getRecord_after_append {α : Type} [Record α] {space : String}
    (later past : List (Operation × Moment)) (h : ∀ step ∈ later, space ∉ step.1.spaces)
    (key : String) : (Backend.getRecord (α := α) space key).answer (after (later ++ past)).contents
      = (Backend.getRecord (α := α) space key).answer (after past).contents := by
  induction later with
  | nil => rfl
  | cons step later ih =>
    obtain ⟨hstep, hlater⟩ := List.forall_mem_cons.1 h
    exact (answer_getRecord_after_cons (later ++ past) hstep key).trans (ih hlater)

end AuthVault.Service
