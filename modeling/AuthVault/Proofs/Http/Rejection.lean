import AuthVault.Proofs.Http.Answer
import AuthVault.Proofs.Http.Custody
import AuthVault.Proofs.Service.Failure

/-!
# Rejected requests

A response with a status of 400 or above has changed nothing, whatever the request was, except that
the session whose email and live key the request presented may last longer (`kept_of_rejected`). A
request that is turned away has done nothing at all, and an operation that fails has left no more
than a use of the session that it presents, which is that of the request (`spent_runHandler`,
`spent_answer`).
-/

namespace AuthVault.Http

open AuthVault.Action
open Service (Sound Spent)

variable {moment : Moment} {uri : Uri} {b : Backend}

theorem spent_runHandler (h : InOrder b)
    {x : Except Outcome (Action (List Json.Value))} (hx : Dispatch moment uri x)
    (hstatus : 400 ≤ (runHandler x b).1.response.status) :
    Spent moment (presented? uri) b.contents (runHandler x b).2.contents := by
  cases hx with
  | badRequest reason => exact .unchanged
  | turnedAway hblameless => exact .unchanged
  | operation op render hpresents =>
    obtain ⟨c, faults⟩ := b
    obtain ⟨rfl, hc⟩ := h
    simp only [runHandler, run_map] at hstatus ⊢
    cases hanswer : ((op.run moment).run ⟨c, []⟩).1 with
    | ok a =>
      rw [hanswer] at hstatus
      exact absurd hstatus (by decide : ¬ 400 ≤ 200)
    | error e => exact (Sound.fruitless_run hc op moment e hanswer).mono hpresents

/-- Only a route that takes the method runs its handler, and the response has the status of what that
comes to; any other response leaves everything as it is. -/
theorem spent_answer (h : InOrder b) (moment : Moment) (request : Request)
    (hstatus : 400 ≤ (answer moment request b).1.status) :
    Spent moment (presented? request.uri) b.contents (answer moment request b).2.contents := by
  unfold answer at hstatus ⊢
  by_cases hoptions : request.method = .options
  · simp only [if_pos hoptions]
    exact .unchanged
  simp only [if_neg hoptions] at hstatus ⊢
  unfold respond at hstatus ⊢
  cases hroute : Route.ofPath? request.uri.path with
  | none => exact .unchanged
  | some route =>
    simp only [hroute] at hstatus ⊢
    by_cases hmethod : request.method ∈ route.methods
    · simp only [if_pos hmethod] at hstatus ⊢
      apply spent_runHandler h (dispatch_handler moment route request)
      split at hstatus
      · exact hstatus
      · exact hstatus
    · simp only [if_neg hmethod]
      exact .unchanged

/-- Whatever has reached a new service before, a request that is answered with a status of 400 or
above leaves every namespace but that of the sessions as it was, and the emails with a session too.
A session that is not as before is the one whose email and live key the request presented, and has
another expiry only. -/
theorem kept_of_rejected (events : List (Event × Moment)) (moment : Moment) (request : Request)
    (h : 400 ≤
      (answer moment request (runAll (Service.setup.run Backend.empty).2 events)).1.status) :
    let b := runAll (Service.setup.run Backend.empty).2 events
    let c := b.contents
    let c' := (answer moment request b).2.contents
    (∀ space, space ≠ Sessions.space → c'.get? space = c.get? space) ∧
      (c'.get? Sessions.space).map Dict.keys = (c.get? Sessions.space).map Dict.keys ∧
      ∀ key, c'.value? Sessions.space key ≠ c.value? Sessions.space key → ∃ session : Session,
        presented? request.uri = some (session.email, session.key) ∧
          session.expiresAt.notAfter moment.now = false ∧ key = Bytes.ofText session.email ∧
          (Sessions.get session.email).answer c = .ok (some session) ∧
          (Sessions.get session.email).answer c'
            = .ok (some { session with expiresAt := moment.now.expiry moment.window }) := by
  intro b c c'
  have hnew : InOrder (Service.setup.run Backend.empty).2 := by
    rw [Service.run_setup]
    exact ⟨rfl, Service.sound_initial⟩
  have hspent := spent_answer (hnew.runAll events) moment request h
  exact ⟨fun _ => hspent.get?_of_ne, hspent.keys_eq, fun _ => hspent.session_of_ne⟩

/-- A user asks to put an object in place of one of another user. -/
def intrusion : Request where
  method := .put
  uri := ⟨Route.objectPath ++ Percent.encode (Bytes.ofText "note"),
    some (Params.queryOf [("email", "dan"), ("key", Service.danKey)])⟩
  headers := []
  body := [2]

theorem addresses_intrusion :
    Addresses intrusion.uri "note" [("email", "dan"), ("key", Service.danKey)] :=
  addresses_of_encodes (by decide) (Percent.encodes_encode (by decide +kernel) _)
    (Params.isQuery_queryOf _) (by decide) rfl rfl

theorem presented?_intrusion : presented? intrusion.uri = some ("dan", Service.danKey) := by
  rw [presented?, addresses_intrusion.params]
  rfl

/-- The request is refused, after the session of the user has been prolonged. -/
theorem answer_intrusion (window : Duration) :
    answer ⟨.first, window, .ascending⟩ intrusion (Service.after Service.joined)
      = ((Outcome.result (.error (.unauthorized "dan"))).response.shared none,
        ⟨(Service.after Service.joined).contents.write Sessions.space (Bytes.ofText "dan")
          (Record.encode (Sessions.opened .first window "dan" "door")), []⟩) := by
  let moment : Moment := ⟨.first, window, .ascending⟩
  have hlive : Sessions.Live .first Service.danKey
      (Sessions.opened .first Sessions.defaultWindow "dan" "door") := ⟨rfl, by decide⟩
  have hrun := run_eq_on (Service.steady_putObject moment "dan" Service.danKey "note" [2])
    (Service.after Service.joined).contents
  have hon : (Service.putObject moment "dan" Service.danKey "note" [2]).on _ = _ :=
    Service.on_putObject_unauthorized Service.get_joined hlive (by decide) Service.load_joined
      (by decide) [2]
  rw [hon, ← Service.after_eq] at hrun
  exact answer_put rfl addresses_intrusion (by decide) hrun

/-- Operations, the latest first, as what has reached a service. -/
def eventsOf (past : List (Service.Operation × Moment)) : List (Event × Moment) :=
  past.reverse.map fun step => (.operation step.1, step.2)

theorem runAll_eventsOf (past : List (Service.Operation × Moment)) :
    runAll (Service.setup.run Backend.empty).2 (eventsOf past) = Service.after past := by
  induction past with
  | nil => rfl
  | cons step past ih =>
    rw [runAll, eventsOf] at ih
    rw [runAll, eventsOf, List.reverse_cons, List.map_append, List.foldl_append, ih]
    rfl

theorem kept_of_rejected_intrusion :
    let b := runAll (Service.setup.run Backend.empty).2 (eventsOf Service.joined)
    let r := answer ⟨.first, .seconds 600, .ascending⟩ intrusion b
    r.1.status = 403 ∧
      (Objects.load "note").answer r.2.contents = .ok (some ⟨"note", [1], ⟨"eve"⟩⟩) ∧
      (r.2.contents.get? Sessions.space).map Dict.keys
        = (b.contents.get? Sessions.space).map Dict.keys ∧
      r.2.contents.value? Sessions.space (Bytes.ofText "eve")
        = b.contents.value? Sessions.space (Bytes.ofText "eve") ∧
      r.2.contents.value? Sessions.space (Bytes.ofText "dan")
        ≠ b.contents.value? Sessions.space (Bytes.ofText "dan") ∧
      (Sessions.get "dan").answer r.2.contents
        = .ok (some (Sessions.opened .first (.seconds 600) "dan" "door")) := by
  intro b r
  have hevents : runAll (Service.setup.run Backend.empty).2 (eventsOf Service.joined) = b := rfl
  have hrequest : answer ⟨.first, .seconds 600, .ascending⟩ intrusion b = r := rfl
  have hb : Service.after Service.joined = b := (runAll_eventsOf _).symm
  have hanswer : answer ⟨.first, .seconds 600, .ascending⟩ intrusion _ = _ :=
    answer_intrusion (.seconds 600)
  have hget := Service.get_joined
  have hload := Service.load_joined
  rw [hb] at hget hload hanswer
  rw [hrequest] at hanswer
  have hstatus : r.1.status = 403 := by
    rw [hanswer]
    rfl
  have hkept := kept_of_rejected (eventsOf Service.joined) ⟨.first, .seconds 600, .ascending⟩ intrusion
  simp only [hevents, hrequest, hstatus] at hkept
  obtain ⟨hspaces, hkeys, hsessions⟩ := hkept (by decide)
  have hpresented : ∀ {session : Session},
      presented? intrusion.uri = some (session.email, session.key) → session.email = "dan" :=
    fun hpair => (congrArg Prod.fst (Option.some.inj (presented?_intrusion.symm.trans hpair))).symm
  have hobjects : r.2.contents.get? Objects.space = b.contents.get? Objects.space :=
    hspaces _ (by decide)
  have hnote : (Objects.load "note").answer r.2.contents = (Objects.load "note").answer b.contents :=
    Backend.answer_getRecord_congr (by rw [Contents.Has, Contents.Has, hobjects])
      (by rw [Contents.value?, Contents.value?, hobjects])
  have hprolonged : r.2.contents.value? Sessions.space (Bytes.ofText "dan")
      ≠ b.contents.value? Sessions.space (Bytes.ofText "dan") := by
    obtain ⟨before, hbefore, -, hdecode⟩ := Backend.answer_getRecord_eq_some_iff.1 hget
    intro hsame
    have hafter := hsame.trans hbefore
    rw [hanswer, Contents.value?_write_self (Contents.has_of_value? hbefore)] at hafter
    rw [← Option.some.inj hafter, LawfulRecord.decode_encode] at hdecode
    exact absurd (congrArg Session.expiresAt (Except.ok.inj hdecode)) (by decide)
  refine ⟨hstatus, hnote.trans hload, hkeys, ?_, hprolonged, ?_⟩
  · by_contra hne
    obtain ⟨session, hpair, -, hkey, -⟩ := hsessions _ hne
    rw [hpresented hpair] at hkey
    exact absurd (Bytes.ofText_inj.1 hkey) (by decide)
  · obtain ⟨session, hpair, -, -, hbefore, hafter⟩ := hsessions _ hprolonged
    rw [hpresented hpair] at hbefore hafter
    rw [Option.some.inj (Except.ok.inj (hbefore.symm.trans hget))] at hafter
    exact hafter

end AuthVault.Http
