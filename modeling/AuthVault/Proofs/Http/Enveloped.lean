import AuthVault.Proofs.Http.Answer
import AuthVault.Proofs.Http.Envelope
import AuthVault.Proofs.Http.Params

/-!
# Answers in envelopes

Whatever the backend holds, a request whose route takes its method is answered with an envelope exactly
if the request can be read (`enveloped_answer_iff`): no parameter comes twice, an id in the path is a
text, and a body that is to be stored is not too long (`Readable`). Then the operation of the route
comes to one value or to a failure with a status and a message. A request that cannot be read is
turned away with a plain text, which is no envelope (`not_enveloped_doubled`).
-/

namespace AuthVault.Http

open AuthVault.Action
open Json (Legible depthLimit)

variable {moment : Moment} {route : Route} {request : Request} {b : Backend}

/-! ### Envelopes -/

/-- The body of a response is an envelope: with a status of 200 it holds one value and no more, and
otherwise the status and a message. -/
def Enveloped (r : Response) : Prop :=
  ∃ e : Envelope, r.body = Record.encode e ∧ Record.decode r.body = .ok e ∧
    (r.status = 200 → e.code = 0 ∧ ∃ v, e.values = [v]) ∧
      (r.status ≠ 200 → e.code = r.status ∧ e.message ≠ "" ∧ e.values = [])

theorem status_mem (e : AuthError) : e.status ∈ [400, 401, 403, 404, 409, 500] := by
  cases e <;> simp [AuthError.status]

theorem message_ne_empty (e : AuthError) : e.message ≠ "" := by
  have hbefore : ∀ s t : String, s ≠ "" → s ++ t ≠ "" := fun _ _ hs h =>
    hs (String.append_eq_empty_iff.1 h).1
  have hafter : ∀ s t : String, t ≠ "" → s ++ t ≠ "" := fun _ _ ht h =>
    ht (String.append_eq_empty_iff.1 h).2
  have hdetail : ∀ heading detail, heading ≠ "" → withDetail heading detail ≠ "" := by
    intro heading detail hheading
    cases detail with
    | none => exact hheading
    | some text => exact hbefore _ _ (hbefore _ _ hheading)
  cases e with
  | codec cause => exact (by decide : "stored record" ≠ "")
  | backend cause =>
    cases cause with
    | namespaceNotFound name => exact hafter _ _ (by decide)
    | io fault => exact hdetail "snapshot io" fault.detail (by decide)
    | corrupt fault => exact hdetail "snapshot corrupt" fault.detail (by decide)
  | invalidCredential _ | badToken _ | badRequest _ => exact hbefore _ _ (by decide)
  | alreadyExists _ | notFound _ | notLoggedIn _ | timedOut _ | unauthorized _ =>
    exact hafter _ _ (by decide)

theorem enveloped_ofError (e : AuthError) : Enveloped (envelopeResponse e.status (.ofError e)) := by
  have hstatuses : ∀ n ∈ [400, 401, 403, 404, 409, 500], n < UInt16.size ∧ n ≠ 200 := by decide
  obtain ⟨hcode, hne⟩ := hstatuses _ (status_mem e)
  refine ⟨.ofError e, rfl, ?_, fun h => absurd h hne, fun _ => ⟨rfl, message_ne_empty e, rfl⟩⟩
  exact Envelope.decode_encode hcode fun v hv => absurd hv List.not_mem_nil

theorem enveloped_ofValues {v : Json.Value} (h : Legible (depthLimit - 2) v) :
    Enveloped (envelopeResponse 200 (.ofValues [v])) := by
  refine ⟨.ofValues [v], rfl, ?_, fun _ => ⟨rfl, v, rfl⟩, fun h => absurd rfl h⟩
  apply Envelope.decode_encode (e := .ofValues [v]) (by decide : 0 < UInt16.size)
  intro w hw
  rwa [List.mem_singleton.1 hw]

/-! ### Refusals -/

/-- An answer whose text is not JSON. -/
def Outcome.Plain (o : Outcome) : Prop :=
  (Record.decode o.response.body : Except DecodeError Envelope) = .error .malformed

/-- A text that begins with an F or an I, as the refusals do, is not JSON. -/
theorem plain_of_head? {status : Nat} {message : String}
    (h : (Bytes.ofText message).head? = some 70 ∨ (Bytes.ofText message).head? = some 73) :
    (Outcome.refused status message).Plain := by
  show (Record.decode (Bytes.ofText message) : Except DecodeError Envelope) = .error .malformed
  rcases h with h | h
  all_goals
    obtain ⟨rest, hrest⟩ := List.head?_eq_some_iff.1 h
    rw [hrest]
    rfl

theorem Outcome.Plain.not_enveloped {o : Outcome} (h : o.Plain) : ¬ Enveloped o.response := by
  rintro ⟨e, -, hdecode, -⟩
  rw [Outcome.Plain, hdecode] at h
  contradiction

/-! ### What can be read -/

/-- Something that is read exactly on a condition, with a property of what is read; otherwise the
request is turned away with a plain text. -/
inductive Accepts {α : Type} (condition : Prop) (property : α → Prop) : Except Outcome α → Prop
  | read {a : α} (h : condition) (ha : property a) : Accepts condition property (.ok a)
  | refused {o : Outcome} (h : ¬ condition) (ho : o.Plain) : Accepts condition property (.error o)

theorem Accepts.congr {α : Type} {p q : Prop} {property : α → Prop} {x : Except Outcome α}
    (h : Accepts p property x) (hiff : p ↔ q) : Accepts q property x := by
  cases h with
  | read hp ha => exact .read (hiff.1 hp) ha
  | refused hp ho => exact .refused (fun hq => hp (hiff.2 hq)) ho

theorem Accepts.bind {α β : Type} {p q : Prop} {property : α → Prop} {property' : β → Prop}
    {x : Except Outcome α} {f : α → Except Outcome β} (hx : Accepts p property x)
    (hf : ∀ a, property a → Accepts q property' (f a)) : Accepts (p ∧ q) property' (x >>= f) := by
  cases hx with
  | refused hp ho => exact .refused (fun h => hp h.1) ho
  | @read a hp ha =>
    show Accepts (p ∧ q) property' (f a)
    exact (hf a ha).congr (and_iff_right hp).symm

/-- The known names of parameters in a query, as often as they come. -/
def knownNames (uri : Uri) : List String :=
  ((Params.pairs (uri.query.getD [])).map (·.1)).filter (· ∈ Params.known)

/-- A request that can be read: no parameter comes twice, the id of an object is a text, and the body
that is to be stored under it is within the limit. -/
structure Readable (route : Route) (request : Request) : Prop where
  once : (knownNames request.uri).Nodup
  id_isText : ∀ segment, route = .object segment →
    (Bytes.text? (Percent.decode segment)).isSome = true
  body_le : ∀ segment, route = .object segment → request.method = .put →
    request.body.length ≤ bodyLimit

theorem accepts_params (uri : Uri) : Accepts (knownNames uri).Nodup (fun _ => True) (params uri) := by
  have hread : (∃ p, Params.ofQuery (uri.query.getD []) = .ok p) ↔ (knownNames uri).Nodup :=
    Params.exists_ofQuery_iff
  unfold params
  cases hquery : Params.ofQuery (uri.query.getD []) with
  | ok p => exact .read (hread.1 ⟨p, hquery⟩) trivial
  | error name =>
    refine .refused (fun honce => ?_) (plain_of_head? (.inl ?_))
    · obtain ⟨p, hp⟩ := hread.2 honce
      rw [hquery] at hp
      contradiction
    · have hhead : (Bytes.ofText "Failed to deserialize query string: duplicate field `").head?
          = some 70 := by decide +kernel
      rw [Bytes.ofText_append, Bytes.ofText_append, List.append_assoc, List.head?_append, hhead]
      rfl

theorem accepts_objectId (segment : Bytes) :
    Accepts ((Bytes.text? (Percent.decode segment)).isSome = true) (fun _ => True)
      (objectId segment) := by
  unfold objectId
  cases Bytes.text? (Percent.decode segment) with
  | some id => exact .read rfl trivial
  | none => exact .refused (by decide) (plain_of_head? (.inr (by decide +kernel)))

theorem accepts_payload (p : Params) (body : Bytes) :
    Accepts (body.length ≤ bodyLimit) (fun _ => True) (payload p body) := by
  unfold payload
  split
  · next h => exact .refused (Nat.not_le.2 h) (plain_of_head? (.inl (by decide +kernel)))
  · next h => exact .read (Nat.not_lt.1 h) trivial

/-! ### What is answered -/

/-- An operation that answers one value, if it does not fail. -/
def AnswersOne (x : Action (List Json.Value)) : Prop :=
  ∀ b values, (x.run b).1 = .ok values → ∃ v, values = [v] ∧ Legible (depthLimit - 2) v

theorem answersOne_bind {α : Type} (x : Action α) {f : α → Json.Value}
    (h : ∀ a, Legible (depthLimit - 2) (f a)) : AnswersOne (x >>= fun a => pure [f a]) := by
  intro b values hvalues
  rw [run_bind] at hvalues
  split at hvalues
  · next a b' _ => exact ⟨f a, (Except.ok.inj hvalues).symm, h a⟩
  · contradiction

theorem legible_textObject (members : List (String × String)) (depth : Nat) :
    Legible (depth + 1) (textObject members) := by
  apply Json.legible_ofMembers
  intro m hm
  obtain ⟨member, -, rfl⟩ := List.mem_map.1 hm
  exact .text depth _

/-- A route with a path of its own reads its parameters and no more. -/
theorem accepts_fixed (hroute : ∀ segment, route ≠ .object segment) (request : Request)
    {f : Params → Action (List Json.Value)} (hf : ∀ p, AnswersOne (f p)) :
    Accepts (Readable route request) AnswersOne (params request.uri >>= fun p => pure (f p)) := by
  have hread : (knownNames request.uri).Nodup ∧ True ↔ Readable route request :=
    ⟨fun h => ⟨h.1, fun s hs => absurd hs (hroute s), fun s hs => absurd hs (hroute s)⟩,
      fun h => ⟨h.once, trivial⟩⟩
  exact ((accepts_params request.uri).bind fun p _ => .read trivial (hf p)).congr hread

/-- The route of an object reads the id before the parameters, and at last the payload that is to be
stored. -/
theorem accepts_object (moment : Moment) (segment : Bytes) (request : Request) :
    Accepts (Readable (.object segment) request) AnswersOne
      (handler moment (.object segment) request) := by
  have hread : (Bytes.text? (Percent.decode segment)).isSome = true ∧
      (knownNames request.uri).Nodup ∧ (request.method = .put → request.body.length ≤ bodyLimit) ↔
      Readable (.object segment) request := by
    constructor
    · rintro ⟨hid, honce, hbody⟩
      exact ⟨honce, fun s hs => Route.object.inj hs ▸ hid, fun _ _ => hbody⟩
    · exact fun h => ⟨h.id_isText segment rfl, h.once, h.body_le segment rfl⟩
  refine ((accepts_objectId segment).bind fun id _ =>
    (accepts_params request.uri).bind fun p _ => ?_).congr hread
  have hget : AnswersOne (Service.getObject moment p.email p.key id >>= fun o =>
      pure [objectView o]) := answersOne_bind _ fun o => legible_objectView o 124
  cases request.method with
  | put =>
    refine ((accepts_payload p request.body).bind fun payload _ =>
      .read trivial (answersOne_bind _ fun o => legible_objectView o 124)).congr ?_
    simp
  | delete => exact .read nofun (answersOne_bind _ fun _ => .text _ id)
  | get => exact .read nofun hget
  | head => exact .read nofun hget
  | options => exact .read nofun hget
  | other => exact .read nofun hget

theorem accepts_handler (moment : Moment) (request : Request) (hsource : route ≠ .source) :
    Accepts (Readable route request) AnswersOne (handler moment route request) := by
  have hnamed : ∀ members, Legible (depthLimit - 2) (textObject members) := fun members =>
    legible_textObject members 124
  cases route with
  | source => contradiction
  | object segment => exact accepts_object moment segment request
  | adminValid =>
    exact accepts_fixed (by simp) request fun p => answersOne_bind _ fun _ => .text _ "ok"
  | adminDelete =>
    refine accepts_fixed (by simp) request fun p => answersOne_bind _ fun _ => ?_
    exact Json.legible_ofMembers fun m hm => List.mem_singleton.1 hm ▸ .bool 124 true
  | userDelete =>
    refine accepts_fixed (by simp) request fun p => ?_
    cases deletionProof? p with
    | none => exact fun b values h => absurd h nofun
    | some proof => exact answersOne_bind _ fun _ => hnamed _
  | adminCreate | userCreate | userValid | userLogin | userLogout =>
    exact accepts_fixed (by simp) request fun p => answersOne_bind _ fun _ => hnamed _

theorem enveloped_response_iff {condition : Prop} {x : Except Outcome (Action (List Json.Value))}
    (h : Accepts condition AnswersOne x) (b : Backend) :
    Enveloped (runHandler x b).1.response ↔ condition := by
  cases h with
  | refused hcondition ho => exact iff_of_false ho.not_enveloped hcondition
  | @read x hcondition hx =>
    refine iff_of_true ?_ hcondition
    simp only [runHandler]
    cases hrun : (x.run b).1 with
    | error e => exact enveloped_ofError e
    | ok values =>
      obtain ⟨v, rfl, hv⟩ := hx b values hrun
      exact enveloped_ofValues hv

/-! ### Responses -/

/-- Whatever the backend holds, the answer to a request that its route takes is an envelope exactly if
the request can be read. -/
theorem enveloped_answer_iff (moment : Moment) (request : Request) (b : Backend)
    (hroute : Route.ofPath? request.uri.path = some route) (hsource : route ≠ .source)
    (hmethod : request.method = .get ∨
      (∃ segment, route = .object segment) ∧ (request.method = .put ∨ request.method = .delete)) :
    Enveloped (answer moment request b).1 ↔ Readable route request := by
  have htaken : request.method ∈ route.methods ∧ request.method ≠ .options ∧
      request.method ≠ .head := by
    rcases hmethod with hget | ⟨⟨segment, rfl⟩, hput | hdelete⟩
    · cases route <;> simp [hget, Route.methods]
    · simp [hput, Route.methods]
    · simp [hdelete, Route.methods]
  obtain ⟨hmem, hoptions, hhead⟩ := htaken
  rw [← enveloped_response_iff (accepts_handler moment request hsource) b]
  unfold answer respond
  simp only [if_neg hoptions, hroute, if_pos hmem, if_neg hhead]
  exact Iff.rfl

/-- A request with the key of a session that nobody has opened. -/
def stranger : Request where
  method := .get
  uri := ⟨Bytes.ofText "/user/valid", some (Bytes.ofText "email=ann&key=key")⟩
  headers := []
  body := []

theorem readable_stranger : Readable .userValid stranger where
  once := by decide +kernel
  id_isText := nofun
  body_le := nofun

theorem enveloped_answer_stranger :
    Route.ofPath? stranger.uri.path = some .userValid ∧
      Enveloped (answer .first stranger (Service.setup.run .empty).2).1 := by
  have hroute : Route.ofPath? stranger.uri.path = some .userValid := by decide +kernel
  exact ⟨hroute, (enveloped_answer_iff _ stranger _ hroute nofun (.inl rfl)).2 readable_stranger⟩

/-- A request with a key that comes twice. -/
def doubled : Request where
  method := .get
  uri := ⟨Bytes.ofText "/user/valid", some (Bytes.ofText "key=a&key=b")⟩
  headers := []
  body := []

theorem not_enveloped_doubled :
    Route.ofPath? doubled.uri.path = some .userValid ∧
      ¬ Enveloped (answer .first doubled (Service.setup.run .empty).2).1 := by
  have hbody : (answer .first doubled (Service.setup.run .empty).2).1.body =
      Bytes.ofText "Failed to deserialize query string: duplicate field `key`" := by decide +kernel
  refine ⟨by decide +kernel, ?_⟩
  rintro ⟨e, -, hdecode, -⟩
  rw [hbody] at hdecode
  contradiction

end AuthVault.Http
