import AuthVault.Http.Router
import AuthVault.Proofs.Service.Authority
import AuthVault.Proofs.Service.Refusal

/-!
# Answers without internal failures

A request does one operation of the service at most and renders its answer, or it is turned away
before; the session that the operation uses is the one that the parameters of the request present
(`dispatch_handler`). So a service that has been started anew, and has been given operations
and requests of any kind since, is in order, and while no fault is armed no operation fails but by
refusing, and no response tells of an internal failure (`status_answer_lt`).
-/

namespace AuthVault.Http

open AuthVault.Action
open Service (Operation Answer Sound)

variable {moment : Moment} {uri : Uri}

/-! ### From requests to operations -/

/-- A request that is turned away is not blamed on the service. -/
def Outcome.Blameless (o : Outcome) : Prop := o.response.status < 500

theorem blameless_params {uri : Uri} {o : Outcome} (h : params uri = .error o) : o.Blameless := by
  unfold params at h
  split at h
  · contradiction
  · exact Except.error.inj h ▸ (by decide : 400 < 500)

theorem blameless_objectId {segment : Bytes} {o : Outcome} (h : objectId segment = .error o) :
    o.Blameless := by
  unfold objectId at h
  split at h
  · contradiction
  · exact Except.error.inj h ▸ (by decide : 400 < 500)

theorem blameless_payload {p : Params} {body : Bytes} {o : Outcome}
    (h : payload p body = .error o) : o.Blameless := by
  unfold payload at h
  split at h
  · exact Except.error.inj h ▸ (by decide : 413 < 500)
  · contradiction

/-- The email and the key that a request presents in its parameters. -/
def presented? (uri : Uri) : Option (String × String) :=
  match params uri with
  | .ok p => some (p.email, p.key)
  | .error _ => none

/-- An operation uses no session but that of the email and the key in the parameters. -/
def Presents (uri : Uri) (op : Operation) : Prop :=
  ∀ pair, op.session? = some pair → presented? uri = some pair

theorem presents_of_none {op : Operation} (h : op.session? = none) : Presents uri op := by
  intro pair hpair
  rw [h] at hpair
  contradiction

theorem presents_of_params {p : Params} {op : Operation} (hparams : params uri = .ok p)
    (h : op.session? = some (p.email, p.key)) : Presents uri op := by
  intro pair hpair
  rw [presented?, hparams, ← hpair, h]

/-- How a request may be handled. -/
inductive Dispatch (moment : Moment) (uri : Uri) : Except Outcome (Action (List Json.Value)) → Prop
  | operation (op : Operation) (render : Answer → List Json.Value) (h : Presents uri op) :
      Dispatch moment uri (.ok (render <$> op.run moment))
  | badRequest (reason : String) : Dispatch moment uri (.ok (throw (.badRequest reason)))
  | turnedAway {o : Outcome} (h : o.Blameless) : Dispatch moment uri (.error o)

theorem Dispatch.of_run {α : Type} (op : Operation) {x : Action α} {g : α → Answer}
    (hrun : op.run moment = g <$> x) (render : Answer → List Json.Value) (h : Presents uri op) :
    Dispatch moment uri (.ok (x >>= fun a => pure (render (g a)))) := by
  rw [show (x >>= fun a => pure (render (g a))) = render <$> op.run moment by
    rw [hrun, Functor.map_map, bind_pure_comp]]
  exact .operation op render h

theorem Dispatch.bind {α : Type} {x : Except Outcome α}
    {f : α → Except Outcome (Action (List Json.Value))} (hx : ∀ o, x = .error o → o.Blameless)
    (hf : ∀ a, x = .ok a → Dispatch moment uri (f a)) : Dispatch moment uri (x >>= f) := by
  cases x with
  | error o => exact .turnedAway (hx o rfl)
  | ok a => exact hf a rfl

/-- A key that is answered, as it is shown to the one who has an email. -/
def keyed (email : String) : Answer → List Json.Value
  | .key key => [textObject [("email", email), ("key", key)]]
  | _ => []

/-- An object that is answered, as it is shown. -/
def viewed : Answer → List Json.Value
  | .object o => [objectView o]
  | _ => []

theorem dispatch_handler (moment : Moment) (route : Route) (request : Request) :
    Dispatch moment request.uri (handler moment route request) := by
  have hparams : ∀ o, params request.uri = .error o → o.Blameless := fun _ => blameless_params
  cases route with
  | source => exact .turnedAway (by decide : 200 < 500)
  | adminValid =>
    exact .bind hparams fun p _ => .of_run (.checkAdmin p.key) rfl (fun _ => [.text "ok"])
      (presents_of_none rfl)
  | adminCreate =>
    exact .bind hparams fun p _ => .of_run (.createAdmin p.key p.email p.pwhash) rfl
      (keyed p.email) (presents_of_none rfl)
  | adminDelete =>
    exact .bind hparams fun p _ => .of_run (.deleteAdmin p.key) rfl
      (fun _ => [.ofMembers [("deleted", .bool true)]]) (presents_of_none rfl)
  | userCreate =>
    exact .bind hparams fun p _ => .of_run (.createUser p.key p.email p.pwhash) rfl
      (fun _ => [textObject [("email", p.email)]]) (presents_of_none rfl)
  | userDelete =>
    refine .bind hparams fun p _ => ?_
    cases deletionProof? p with
    | none => exact .badRequest _
    | some proof =>
      exact .of_run (.deleteUser proof p.email) rfl (fun _ => [textObject [("email", p.email)]])
        (presents_of_none rfl)
  | userValid =>
    exact .bind hparams fun p hp => .of_run (.validate p.email p.key) rfl
      (fun _ => [textObject [("email", p.email)]]) (presents_of_params hp rfl)
  | userLogin =>
    exact .bind hparams fun p _ => .of_run (.login p.email p.pwhash) rfl (keyed p.email)
      (presents_of_none rfl)
  | userLogout =>
    exact .bind hparams fun p hp => .of_run (.logout p.email p.key) rfl
      (fun _ => [textObject [("email", p.email)]]) (presents_of_params hp rfl)
  | object segment =>
    refine .bind (fun _ => blameless_objectId) fun id _ => .bind hparams fun p hp => ?_
    have hget : Dispatch moment request.uri (.ok (Service.getObject moment p.email p.key id >>=
        fun o => pure [objectView o])) :=
      .of_run (.getObject p.email p.key id) rfl viewed (presents_of_params hp rfl)
    cases request.method with
    | put =>
      exact .bind (fun _ => blameless_payload) fun payload _ =>
        .of_run (.putObject p.email p.key id payload) rfl viewed (presents_of_params hp rfl)
    | delete =>
      exact .of_run (.deleteObject p.email p.key id) rfl (fun _ => [.text id])
        (presents_of_params hp rfl)
    | get => exact hget
    | head => exact hget
    | options => exact hget
    | other => exact hget

/-! ### Answers in order -/

/-- A service is in order, and no fault is armed. -/
def InOrder (b : Backend) : Prop := b.faults = [] ∧ Sound b.contents

theorem InOrder.run_operation {b : Backend} (h : InOrder b) (op : Operation) (moment : Moment) :
    InOrder ((op.run moment).run b).2 ∧
      ∀ e, ((op.run moment).run b).1 = .error e → e.isRefusal = true := by
  obtain ⟨c, faults⟩ := b
  obtain ⟨rfl, hc⟩ := h
  rw [run_eq_on (Service.steady_run op moment)]
  exact ⟨⟨rfl, Service.keeps_run op moment c hc⟩, hc.refuses_run op moment⟩

theorem InOrder.runHandler {b : Backend} (h : InOrder b)
    {x : Except Outcome (Action (List Json.Value))} (hx : Dispatch moment uri x) :
    (runHandler x b).1.Blameless ∧ InOrder (runHandler x b).2 := by
  cases hx with
  | operation op render _ =>
    obtain ⟨horder, hrefusal⟩ := h.run_operation op moment
    simp only [Http.runHandler, run_map]
    refine ⟨?_, horder⟩
    cases hanswer : ((op.run moment).run b).1 with
    | ok a => exact (by decide : 200 < 500)
    | error e => exact AuthError.isRefusal_iff.1 (hrefusal e hanswer)
  | badRequest reason => exact ⟨(by decide : 400 < 500), h⟩
  | turnedAway hblameless => exact ⟨hblameless, h⟩

theorem InOrder.respond {b : Backend} (h : InOrder b) (moment : Moment) (request : Request) :
    (respond moment request b).1.status < 500 ∧ InOrder (respond moment request b).2 := by
  unfold Http.respond
  cases Route.ofPath? request.uri.path with
  | none => exact ⟨(by decide : 404 < 500), h⟩
  | some route =>
    by_cases hmethod : request.method ∈ route.methods
    · obtain ⟨hblameless, horder⟩ := h.runHandler (dispatch_handler moment route request)
      simp only [if_pos hmethod]
      refine ⟨?_, horder⟩
      split
      · exact hblameless
      · exact hblameless
    · simp only [if_neg hmethod]
      exact ⟨(by decide : 405 < 500), h⟩

theorem InOrder.answer {b : Backend} (h : InOrder b) (moment : Moment) (request : Request) :
    (answer moment request b).1.status < 500 ∧ InOrder (answer moment request b).2 := by
  unfold Http.answer
  by_cases hmethod : request.method = .options
  · simp only [if_pos hmethod]
    exact ⟨(by decide : 200 < 500), h⟩
  · simp only [if_neg hmethod]
    exact h.respond moment request

/-! ### Runs -/

/-- What reaches a running service. -/
inductive Event
  | operation (op : Operation)
  | request (request : Request)

/-- What an event leaves. -/
def Event.run (event : Event) (moment : Moment) (b : Backend) : Backend :=
  match event with
  | operation op => ((op.run moment).run b).2
  | request r => (answer moment r b).2

/-- What events leave that come one after the other, each at its moment. -/
def runAll (b : Backend) (events : List (Event × Moment)) : Backend :=
  events.foldl (fun b event => event.1.run event.2 b) b

theorem InOrder.run_event {b : Backend} (h : InOrder b) (event : Event) (moment : Moment) :
    InOrder (event.run moment b) := by
  cases event with
  | operation op => exact (h.run_operation op moment).1
  | request request => exact (h.answer moment request).2

theorem InOrder.runAll {b : Backend} (h : InOrder b) (events : List (Event × Moment)) :
    InOrder (runAll b events) := by
  induction events generalizing b with
  | nil => exact h
  | cons event events ih => exact ih (h.run_event event.1 event.2)

/-- Whatever has reached a new service before, no operation fails for the backend or for a record
that cannot be read, and no response tells of an internal failure. -/
theorem status_answer_lt (events : List (Event × Moment)) (moment : Moment) :
    (Service.setup.run Backend.empty).1 = .ok () ∧
      (∀ (op : Operation) (e : AuthError),
        ((op.run moment).run (runAll (Service.setup.run Backend.empty).2 events)).1 = .error e →
          (∀ cause, e ≠ .codec cause) ∧ ∀ cause, e ≠ .backend cause) ∧
      ∀ request : Request,
        (answer moment request (runAll (Service.setup.run Backend.empty).2 events)).1.status < 500 := by
  rw [Service.run_setup]
  have hnew : InOrder ⟨Service.initial, []⟩ := ⟨rfl, Service.sound_initial⟩
  have horder := hnew.runAll events
  refine ⟨rfl, fun op e herror => ?_, fun request => (horder.answer moment request).1⟩
  have hrefusal := (horder.run_operation op moment).2 e herror
  refine ⟨?_, ?_⟩ <;> rintro cause rfl <;> contradiction

end AuthVault.Http
