import AuthVault.Proofs.Http.Envelope
import AuthVault.Proofs.Http.Target
import AuthVault.Proofs.Service.Authority
import AuthVault.Proofs.Service.Custody

/-!
# Objects over the interface

A request with the email and the key of a live session puts a payload under an id, and the next one at
the same instant gets it back (`answer_get_of_put`). Each step is undone by its counterpart: the
target is taken apart where it was put together, the operations store and find the object, and whoever
reads the body of the response finds the one value that shows it.
-/

namespace AuthVault.Http

open AuthVault.Action
open Service (Vacant)

variable {moment : Moment} {id email key : String} {fields : List (String × String)}
  {body : Bytes} {request : Request} {b b' : Backend} {object : StoredObject}

/-! ### Requests for an object -/

/-- A request for an object, with the email and the key of a session among its parameters. -/
structure AsksFor (method id email key : String) (fields : List (String × String)) (body : Bytes)
    (request : Request) : Prop where
  built : ∃ target headers, IsObjectTarget id fields target ∧
    Request.build? (Bytes.ofText method) target headers body = some request
  distinct : (fields.map (·.1)).Nodup
  email_eq : Params.given fields "email" = email
  key_eq : Params.given fields "key" = key

theorem parts_of_build? {name target : Bytes} {headers : List (Bytes × Bytes)}
    (h : Request.build? name target headers body = some request) :
    Method.ofName? name = some request.method ∧ Uri.parse? target = some request.uri ∧
      request.body = body := by
  simp only [Request.build?, Option.bind_eq_bind, Option.bind_eq_some_iff, Option.pure_def,
    Option.some.injEq] at h
  obtain ⟨method, hmethod, uri, huri, headers, -, rfl⟩ := h
  exact ⟨hmethod, huri, rfl⟩

theorem AsksFor.method_eq {method : String} (h : AsksFor method id email key fields body request)
    {m : Method} (hm : Method.ofName? (Bytes.ofText method) = some m) : request.method = m := by
  obtain ⟨target, headers, -, hbuild⟩ := h.built
  exact Option.some.inj ((parts_of_build? hbuild).1.symm.trans hm)

theorem AsksFor.body_eq {method : String} (h : AsksFor method id email key fields body request) :
    request.body = body := by
  obtain ⟨target, headers, -, hbuild⟩ := h.built
  exact (parts_of_build? hbuild).2.2

theorem AsksFor.addresses {method : String} (h : AsksFor method id email key fields body request)
    (hid : id ≠ "") : Addresses request.uri id fields := by
  obtain ⟨target, headers, htarget, hbuild⟩ := h.built
  exact htarget.addresses hid h.distinct (parts_of_build? hbuild).2.1

/-! ### What is answered -/

/-- The payload that a request puts: the parameter, or else the body. -/
def putPayload (fields : List (String × String)) (body : Bytes) : Bytes :=
  if Params.given fields "json" = "" then body else Bytes.ofText (Params.given fields "json")

theorem answer_of_handler {x : Action (List Json.Value)} {r : Except AuthError (List Json.Value)}
    {route : Route} (hroute : Route.ofPath? request.uri.path = some route)
    (hmethod : request.method ∈ route.methods) (hoptions : request.method ≠ .options)
    (hhead : request.method ≠ .head) (hhandler : handler moment route request = .ok x)
    (hrun : x.run b = (r, b')) :
    answer moment request b = ((Outcome.result r).response.shared (request.header? "origin"), b') := by
  simp only [answer, if_neg hoptions, respond, hroute, if_pos hmethod, if_neg hhead, runHandler,
    hhandler, hrun]

/-- A request to put an object is answered with what the operation comes to. -/
theorem answer_put {r : Except AuthError StoredObject} (hmethod : request.method = .put)
    (h : Addresses request.uri id fields) (hbody : request.body.length ≤ bodyLimit)
    (hrun : (Service.putObject moment (Params.given fields "email") (Params.given fields "key") id
      (putPayload fields request.body)).run b = (r, b')) :
    answer moment request b = ((Outcome.result (r.map fun o => [objectView o])).response.shared
      (request.header? "origin"), b') := by
  obtain ⟨⟨segment, hroute, hobjectId⟩, hparams⟩ := h
  have hpayload : ∀ email pwhash key, payload ⟨email, pwhash, key, Params.given fields "json"⟩
      request.body = .ok (putPayload fields request.body) := by
    intro email pwhash key
    rw [payload, if_neg (Nat.not_lt.2 hbody), putPayload]
  have hhandler : handler moment (.object segment) request
      = .ok ((fun o => [objectView o]) <$> Service.putObject moment (Params.given fields "email")
          (Params.given fields "key") id (putPayload fields request.body)) := by
    simp only [handler, hobjectId, hparams, hmethod, ← bind_pure_comp]
    show (payload _ request.body >>= fun payload => _) = _
    rw [hpayload]
    rfl
  refine answer_of_handler hroute ?_ ?_ ?_ hhandler ?_
  · simp [hmethod, Route.methods]
  · simp [hmethod]
  · simp [hmethod]
  · rw [run_map, hrun]

theorem answer_get (h : AsksFor "GET" id email key fields body request) (hid : id ≠ "")
    (hrun : (Service.getObject moment email key id).run b = (.ok object, b')) :
    answer moment request b
      = ((envelopeResponse 200 (.ofValues [objectView object])).shared (request.header? "origin"),
          b') := by
  have hmethod : request.method = .get := h.method_eq (by decide +kernel)
  obtain ⟨⟨segment, hroute, hobjectId⟩, hparams⟩ := h.addresses hid
  have hhandler : handler moment (.object segment) request
      = .ok (Service.getObject moment email key id >>= fun o => pure [objectView o]) := by
    simp only [handler, hobjectId, hparams, hmethod, h.email_eq, h.key_eq]
    rfl
  apply answer_of_handler hroute _ _ _ hhandler (run_bind_ok hrun)
  all_goals simp [hmethod, Route.methods]

/-- The body of a response that shows an object is read back. -/
theorem decode_shown (object : StoredObject) :
    Record.decode (envelopeResponse 200 (.ofValues [objectView object])).body
      = .ok (Envelope.ofValues [objectView object]) := by
  apply Envelope.decode_encode (e := Envelope.ofValues [objectView object])
    (by decide : 0 < UInt16.size)
  intro v hv
  obtain rfl := List.mem_singleton.1 hv
  exact legible_objectView object 124

/-- A payload that a request puts under an id with a live session, be it the body or the parameter, is
what the next request at the same instant gets: both are answered with a status of 200, and the body
of the second answer is read as the one value that shows the object. The session is to end with the
last instant at the latest, as every window does that opens outside a leap second. -/
theorem answer_get_of_put {c : Contents} {session : Session}
    {putFields getFields : List (String × String)} {putBody getBody : Bytes} {put get : Request}
    (hsession : (Sessions.get email).answer c = .ok (some session))
    (hlive : Sessions.Live moment.now key session)
    (hend : session.expiresAt.notAfter .last = true) (hwindow : moment.window.isZero = false)
    (hid : id ≠ "") (hvacant : Vacant c id email)
    (hput : AsksFor "PUT" id email key putFields putBody put) (hbody : putBody.length ≤ bodyLimit)
    (hget : AsksFor "GET" id email key getFields getBody get) :
    (answer moment put ⟨c, []⟩).1.status = 200 ∧
      (answer moment get (answer moment put ⟨c, []⟩).2).1.status = 200 ∧
      ∃ v, Record.decode (answer moment get (answer moment put ⟨c, []⟩).2).1.body
          = .ok (Envelope.ofValues [v]) ∧
        Shows id email (putPayload putFields putBody) v := by
  obtain rfl := hput.body_eq
  obtain rfl := hput.email_eq
  obtain rfl := hput.key_eq
  obtain ⟨c', hon, hanswer⟩ := Service.getObject_of_putObject hsession hlive hend hwindow hid hvacant
    (putPayload putFields put.body)
  have hrun := run_eq_on (Service.steady_putObject moment (Params.given putFields "email")
    (Params.given putFields "key") id (putPayload putFields put.body)) c
  rw [hon] at hrun
  have hgot : (Service.getObject moment (Params.given putFields "email")
      (Params.given putFields "key") id).run ⟨c', []⟩ = (.ok ⟨id, _, ⟨_⟩⟩, _) := Prod.ext hanswer rfl
  have hmethod : put.method = .put := hput.method_eq (by decide +kernel)
  rw [answer_put hmethod (hput.addresses hid) hbody hrun, answer_get hget hid hgot]
  exact ⟨rfl, rfl, _, decode_shown _, shows_objectView ⟨id, _, ⟨_⟩⟩⟩

/-- A request for an object with a slash in its id. -/
def slashed (method : Method) (body : Bytes) : Request where
  method := method
  uri := ⟨Bytes.ofText "/object/a%2fb", some (Bytes.ofText "email=ann&key=key")⟩
  headers := []
  body := body

theorem asksFor_slashed {name : String} {method : Method} {body : Bytes}
    (h : Method.ofName? (Bytes.ofText name) = some method) :
    AsksFor name "a/b" "ann" "key" [("email", "ann"), ("key", "key")] body
      (slashed method body) := by
  have huri : Uri.parse? (objectTarget "a/b" [("email", "ann"), ("key", "key")])
      = some ⟨Bytes.ofText "/object/a%2fb", some (Bytes.ofText "email=ann&key=key")⟩ := by
    decide +kernel
  refine ⟨⟨_, [], isObjectTarget_objectTarget _ _, ?_⟩, by decide, by decide, by decide⟩
  simp only [Request.build?, h, huri]
  rfl

/-- A body that is not a text is got back in Base64. -/
theorem answer_get_of_put_slashed :
    let moment : Moment := .first
    let put := answer moment (slashed .put [255]) ⟨Service.visited, []⟩
    let get := answer moment (slashed .get []) put.2
    put.1.status = 200 ∧ get.1.status = 200 ∧
      ∃ v, Record.decode get.1.body = .ok (Envelope.ofValues [v]) ∧ Shows "a/b" "ann" [255] v := by
  intro moment put get
  have hsession : (Sessions.get "ann").answer Service.visited = .ok (some ⟨"ann", "key", .last⟩) :=
    Backend.answer_getRecord_write ((Service.has_initial _).2 (by decide)) _
  have hvacant : Vacant Service.visited "a/b" "ann" := by
    refine .inl (Backend.answer_getRecord_eq_none_iff.2 ⟨?_, .inl ?_⟩)
    · exact (Contents.has_write _ _).2 ((Service.has_initial _).2 (by decide))
    · rw [Service.visited, Contents.value?_write_of_ne fun hkey => absurd hkey.1 (by decide),
        Service.value?_initial]
  exact answer_get_of_put hsession ⟨rfl, by decide⟩ (by decide) (by decide) (by decide) hvacant
    (asksFor_slashed (by decide +kernel)) (by decide) (asksFor_slashed (by decide +kernel))

end AuthVault.Http
