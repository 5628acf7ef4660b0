import AuthVault.Proofs.Session
import AuthVault.Proofs.Time.Expiry

/-!
# Sessions and the history of calls

A session manager is asked to open, use and close sessions and to change the window, in any order
and at any clock readings, also when the clock goes back. `answer_callAll`: what it answers to a use
of a session is told by the calls made before (`verdict`): by the key of the last login since the
session was last closed, and by the reading of the last login or use and the window that had last been
asked for by then. Calls that failed and calls for other emails leave no mark on the session of an
email (`Event.mark`), so they make no difference, and no two keys are accepted.

The argument keeps up, along the history, that the window in force is the one that was last asked for
and the stored session is the one that the marks tell (`Follows`). Each call stores or removes the
session of the email that it marks, and nothing else (`effect_run`).
-/

namespace AuthVault.Sessions

open AuthVault.Action Contents

/-! ### Calls and their history -/

/-- What a clock shows; it shows no leap seconds. -/
abbrev Reading := { t : Instant // t.Plain }

/-- The calls of a session manager. -/
inductive Request
  | login (email password : String)
  | validate (email key : String)
  | logout (email key : String)
  | clear (email : String)
  | setWindow (window : Duration)

inductive Reply
  | key (key : String)
  | done
  | existed (existed : Bool)

/-- What a call does to the sessions of a manager. -/
def Request.run (m : Manager) (now : Instant) : Request → Action Reply
  | login email password => .key <$> m.login now email password
  | validate email key => (fun _ => .done) <$> m.validate now email key
  | logout email key => (fun _ => .done) <$> m.logout now email key
  | clear email => .existed <$> Sessions.clear email
  | setWindow _ => pure .done

/-- What a call does to a manager. -/
def Request.apply (m : Manager) : Request → Manager
  | setWindow window => m.setWindow window
  | _ => m

/-- The window that a call asks for. -/
def Request.window? : Request → Option Duration
  | setWindow window => some window
  | _ => none

/-- The email whose session a call is for. -/
def Request.email? : Request → Option String
  | login email _ | validate email _ | logout email _ | clear email => some email
  | setWindow _ => none

/-- Whether a call is for the session of an email or for the window. -/
def Request.concerns (email : String) (request : Request) : Bool :=
  request.email? == some email || request.email? == none

/-- A call that has been made, and what it answered. -/
structure Event where
  request : Request
  now : Reading
  reply : Except AuthError Reply

/-- A session manager at work over a backend, with the calls made so far, the latest first. -/
structure Course where
  manager : Manager
  backend : Backend
  past : List Event

namespace Course

/-- Nothing has been asked yet of a manager over a backend without armed faults. -/
def start (window : Duration) (c : Contents) : Course := ⟨{ window }, ⟨c, []⟩, []⟩

/-- What the manager answers to a call. -/
def reply (r : Course) (request : Request) (now : Reading) : Except AuthError Reply :=
  ((request.run r.manager now).run r.backend).1

def call (r : Course) (request : Request) (now : Reading) : Course where
  manager := request.apply r.manager
  backend := ((request.run r.manager now).run r.backend).2
  past := ⟨request, now, r.reply request now⟩ :: r.past

def callAll (r : Course) (calls : List (Request × Reading)) : Course :=
  calls.foldl (fun r next => r.call next.1 next.2) r

theorem callAll_append (r : Course) (calls later : List (Request × Reading)) :
    r.callAll (calls ++ later) = (r.callAll calls).callAll later := List.foldl_append

/-- What the manager answers to a use of a session. -/
def answer (r : Course) (email key : String) (now : Reading) : Except AuthError Unit :=
  ((r.manager.validate now email key).run r.backend).1

/-- Each call is an event of the past. -/
theorem past_callAll (r : Course) (calls : List (Request × Reading)) :
    (r.callAll calls).past.map (fun event => (event.request, event.now))
      = calls.reverse ++ r.past.map fun event => (event.request, event.now) := by
  induction calls generalizing r with
  | nil => rfl
  | cons next calls ih =>
    rw [callAll, List.foldl_cons, ← callAll, ih, List.reverse_cons, List.append_assoc]
    rfl

end Course

/-! ### What the history tells of a session -/

/-- The window that was last asked for, where the latest call comes first. -/
def lastWindow (initial : Duration) (requests : List Request) : Duration :=
  (requests.findSome? Request.window?).getD initial

theorem window_apply {m : Manager} {initial : Duration} {requests : List Request}
    (h : m.window = lastWindow initial requests) (request : Request) :
    (request.apply m).window = lastWindow initial (request :: requests) := by
  cases request with
  | setWindow window => rfl
  | _ => exact h

/-- What a call means to a session. -/
inductive Mark
  | opened (key : String) (now : Reading) (window : Duration)
  | used (now : Reading) (window : Duration)
  | closed

/-- What a call means with a window in force, and to whose session; nothing if it failed or closed no
session. -/
def Event.mark (window : Duration) : Event → Option (String × Mark)
  | ⟨.login email _, now, .ok (.key key)⟩ => some (email, .opened key now window)
  | ⟨.validate email _, now, .ok _⟩ => some (email, .used now window)
  | ⟨.logout email _, _, .ok _⟩ => some (email, .closed)
  | ⟨.clear email, _, .ok (.existed true)⟩ => some (email, .closed)
  | _ => none

/-- The window in force after some events. -/
def windowAfter (initial : Duration) (past : List Event) : Duration :=
  lastWindow initial (past.map Event.request)

/-- The marks on the session of an email, the latest first. -/
def marks (initial : Duration) (email : String) : List Event → List Mark
  | [] => []
  | event :: past =>
    match event.mark (windowAfter initial past) with
    | some (e, mark) =>
      if e = email then mark :: marks initial email past else marks initial email past
    | none => marks initial email past

def Mark.key? : Mark → Option String
  | opened key _ _ => some key
  | _ => none

/-- The reading and the window of a login or a use. -/
def Mark.use? : Mark → Option (Reading × Duration)
  | opened _ now window | used now window => some (now, window)
  | closed => none

def Mark.isClosed : Mark → Bool
  | closed => true
  | _ => false

/-- The marks since the session was last closed. -/
def sinceClosed (ms : List Mark) : List Mark := ms.takeWhile fun m => !m.isClosed

/-- The key of the last login since the session was closed. -/
def lastKey (ms : List Mark) : Option String := (sinceClosed ms).findSome? Mark.key?

/-- The last login or use since the session was closed. -/
def lastUse (ms : List Mark) : Option (Reading × Duration) := (sinceClosed ms).findSome? Mark.use?

/-- The answer to a use of a session of an email with a key. -/
def verdict (ms : List Mark) (email key : String) (now : Reading) : Except AuthError Unit :=
  match lastKey ms with
  | none => .error (.notLoggedIn email)
  | some k =>
    if key ≠ k then .error (.badToken email)
    else if (lastUse ms).any fun (s, window) =>
        decide (min (s.1.toNanos + window.toNanos) Instant.last.toNanos ≤ now.1.toNanos) then
      .error (.timedOut email)
    else .ok ()

/-- The session of an email that the marks tell. -/
def current (email : String) (ms : List Mark) : Option Session :=
  (lastKey ms).bind fun key =>
    (lastUse ms).map fun (now, window) => ⟨email, key, now.1.expiry window⟩

theorem current_opened (email key : String) (now : Reading) (window : Duration) (ms : List Mark) :
    current email (.opened key now window :: ms) = some ⟨email, key, now.1.expiry window⟩ := rfl

theorem current_closed (email : String) (ms : List Mark) :
    current email (.closed :: ms) = none := rfl

theorem current_used {email : String} {ms : List Mark} {session : Session}
    (h : current email ms = some session) (now : Reading) (window : Duration) :
    current email (.used now window :: ms) = some (slid now window session) := by
  obtain ⟨key, hkey, hsession⟩ := Option.bind_eq_some_iff.1 h
  obtain ⟨use, -, rfl⟩ := Option.map_eq_some_iff.1 hsession
  have hlast : lastKey (.used now window :: ms) = some key := hkey
  rw [current, hlast]
  rfl

theorem email_of_current {email : String} {ms : List Mark} {session : Session}
    (h : current email ms = some session) : session.email = email := by
  obtain ⟨key, -, hsession⟩ := Option.bind_eq_some_iff.1 h
  obtain ⟨use, -, rfl⟩ := Option.map_eq_some_iff.1 hsession
  rfl

/-- A login is a use. -/
theorem exists_lastUse {ms : List Mark} {key : String} (h : lastKey ms = some key) :
    ∃ use, lastUse ms = some use := by
  cases ms with
  | nil => contradiction
  | cons mark ms =>
    cases mark with
    | opened key now window => exact ⟨(now, window), rfl⟩
    | used now window => exact ⟨(now, window), rfl⟩
    | closed => contradiction

/-- The answer is that to a use of the session that the marks tell. -/
theorem verdict_eq (ms : List Mark) (email key : String) (now : Reading) :
    verdict ms email key now =
    match current email ms with
    | none => .error (.notLoggedIn email)
    | some session =>
      if session.key ≠ key then .error (.badToken email)
      else if session.expiresAt.notAfter now then .error (.timedOut email)
      else .ok () := by
  unfold verdict current
  cases hkey : lastKey ms with
  | none => rfl
  | some k =>
    obtain ⟨⟨s, window⟩, huse⟩ := exists_lastUse hkey
    have hexpiry : (s.1.expiry window).notAfter now = true ↔
        min (s.1.toNanos + window.toNanos) Instant.last.toNanos ≤ now.1.toNanos := by
      rw [Instant.notAfter_iff (Instant.plain_expiry s.2 window) now.2, Instant.toNanos_expiry s.2]
    simp only [huse, Option.any_some, Option.bind_some, Option.map_some, decide_eq_true_eq,
      ← hexpiry]
    by_cases hk : k = key
    · simp only [hk]
    · simp only [hk, Ne.symm hk, ne_eq, not_false_eq_true, if_true]

section Marks

variable {initial : Duration} {email : String} {event : Event} {mark : Mark} {past : List Event}

theorem marks_of_none (h : event.mark (windowAfter initial past) = none) :
    marks initial email (event :: past) = marks initial email past := by
  rw [marks, h]

theorem marks_of_some (h : event.mark (windowAfter initial past) = some (email, mark)) :
    marks initial email (event :: past) = mark :: marks initial email past := by
  rw [marks, h]
  exact if_pos rfl

theorem marks_of_ne {e : String} (h : event.mark (windowAfter initial past) = some (e, mark))
    (hne : e ≠ email) : marks initial email (event :: past) = marks initial email past := by
  rw [marks, h]
  exact if_neg hne

theorem marks_congr {past' : List Event} (h : marks initial email past' = marks initial email past)
    (hwindow : windowAfter initial past' = windowAfter initial past) (event : Event) :
    marks initial email (event :: past') = marks initial email (event :: past) := by
  rw [marks, marks, hwindow, h]

end Marks

/-! ### Calls keep up with the history -/

variable {c c' : Contents} {m : Manager} {initial : Duration}

/-- What a call to a manager has done to contents, by the mark that it left. -/
inductive Effect (m : Manager) (c : Contents) (event : Event) : Contents → Prop
  | none (mark : event.mark m.window = .none) : Effect m c event c
  | opened {email key : String}
      (mark : event.mark m.window = some (email, .opened key event.now m.window)) :
      Effect m c event (c.write space (Bytes.ofText email)
        (Record.encode (⟨email, key, event.now.1.expiry m.window⟩ : Session)))
  | used {email : String} {session : Session}
      (mark : event.mark m.window = some (email, .used event.now m.window))
      (found : (get email).answer c = .ok (some session)) :
      Effect m c event (c.write space (Bytes.ofText email)
        (Record.encode (slid event.now m.window session)))
  | closed {email : String} (mark : event.mark m.window = some (email, .closed)) :
      Effect m c event (c.remove space (Bytes.ofText email))

/-- A call stores or removes the session that it marks, and nothing else. -/
theorem effect_run (hhas : c.Has space)
    (hemail : ∀ {email session}, (get email).answer c = .ok (some session) → session.email = email)
    (m : Manager) (request : Request) (now : Reading) :
    Effect m c ⟨request, now, ((request.run m now).on c).1⟩ ((request.run m now).on c).2 := by
  cases request with
  | login email password =>
    rw [Request.run, on_map, Manager.login]
    cases hcheck : (IdentitySpace.users.checkPassword email password).answer c with
    | error e =>
      rw [on_login_error hcheck]
      exact .none rfl
    | ok _ =>
      rw [on_login hhas hcheck]
      exact .opened rfl
  | validate email key =>
    rw [Request.run, on_map, Manager.validate]
    rcases validate_cases now m.window email key c with ⟨e, herror⟩ | ⟨session, hget, hlive⟩
    · rw [herror]
      exact .none rfl
    · rw [on_validate_of_live hget hlive, hemail hget]
      exact .used rfl hget
  | logout email key =>
    rw [Request.run, on_map, Manager.logout]
    rcases validate_cases now m.window email key c with ⟨e, herror⟩ | ⟨session, hget, hlive⟩
    · rw [on_logout_error herror]
      exact .none rfl
    · rw [on_logout_of_live hget hlive (hemail hget)]
      exact .closed rfl
  | clear email =>
    rw [Request.run, on_map, on_clear]
    rcases (get email).answer c with e | _ | session
    · exact .none rfl
    · exact .none rfl
    · exact .closed rfl
  | setWindow window => exact .none rfl

/-- The window in force is the one last asked for, and the history tells the stored sessions. -/
structure Follows (initial : Duration) (r : Course) : Prop where
  faults : r.backend.faults = []
  window : r.manager.window = windowAfter initial r.past
  answer_get : ∀ email,
    (get email).answer r.backend.contents = .ok (current email (marks initial email r.past))

/-- A call that marks a session keeps up with the history if it leaves the session that the marks
then tell, and no other session changes. -/
theorem answer_get_of_mark {event : Event} {past : List Event} {e : String} {mark : Mark}
    (hmark : event.mark (windowAfter initial past) = some (e, mark))
    (hget : ∀ email, (get email).answer c = .ok (current email (marks initial email past)))
    (hself : (get e).answer c' = .ok (current e (mark :: marks initial e past)))
    (hother : ∀ email, e ≠ email → (get email).answer c' = (get email).answer c) (email : String) :
    (get email).answer c' = .ok (current email (marks initial email (event :: past))) := by
  by_cases hemail : e = email
  · rw [← hemail, marks_of_some hmark, hself]
  · rw [hother email hemail, hget, marks_of_ne hmark hemail]

theorem Effect.answer_get {event : Event} {past : List Event}
    (hwindow : m.window = windowAfter initial past)
    (hget : ∀ email, (get email).answer c = .ok (current email (marks initial email past)))
    (heffect : Effect m c event c') (email : String) :
    (get email).answer c' = .ok (current email (marks initial email (event :: past))) := by
  have hhas : c.Has space := Backend.has_of_answer_getRecord (hget email)
  have hwrite : ∀ {e value} email, e ≠ email →
      (get email).answer (c.write space (Bytes.ofText e) value) = (get email).answer c :=
    fun _ hne => Backend.answer_getRecord_write_of_key_ne (Ne.symm hne)
  cases heffect with
  | none hmark => rw [hget, marks_of_none (hwindow ▸ hmark)]
  | opened hmark =>
    refine answer_get_of_mark (hwindow ▸ hmark) hget ?_ hwrite email
    rw [current_opened, ← hwindow]
    exact Backend.answer_getRecord_write hhas _
  | @used e session hmark hfound =>
    have hsession := Except.ok.inj ((hget e).symm.trans hfound)
    refine answer_get_of_mark (hwindow ▸ hmark) hget ?_ hwrite email
    rw [current_used hsession, ← hwindow]
    exact Backend.answer_getRecord_write hhas _
  | closed hmark =>
    refine answer_get_of_mark (hwindow ▸ hmark) hget ?_ (fun _ hne => ?_) email
    · rw [current_closed]
      exact Backend.answer_getRecord_remove hhas
    · exact Backend.answer_getRecord_remove_of_ne fun h => hne (Bytes.ofText_inj.1 h.2).symm

theorem steady_request (m : Manager) (request : Request) (now : Instant) :
    (request.run m now).Steady := by
  cases request with
  | login email password => exact (atomic_login now m.window email password).steady.map _
  | validate email key => exact (atomic_validate now m.window email key).steady.map _
  | logout email key => exact (steady_logout now m.window email key).map _
  | clear email => exact (atomic_clear email).steady.map _
  | setWindow _ => exact (readOnly_pure _).steady

namespace Follows

variable {r : Course}

theorem has_space (h : Follows initial r) : r.backend.contents.Has space :=
  Backend.has_of_answer_getRecord (h.answer_get "")

theorem backend_eq (h : Follows initial r) : r.backend = ⟨r.backend.contents, []⟩ :=
  Backend.ext rfl h.faults

theorem reply_eq (h : Follows initial r) (request : Request) (now : Reading) :
    r.reply request now = (request.run r.manager now).answer r.backend.contents := by
  rw [Course.reply, h.backend_eq]
  rfl

theorem effect (h : Follows initial r) (request : Request) (now : Reading) :
    Effect r.manager r.backend.contents ⟨request, now, r.reply request now⟩
      (r.call request now).backend.contents := by
  have hemail : ∀ {email session}, (get email).answer r.backend.contents = .ok (some session) →
      session.email = email := fun hget =>
    email_of_current (Except.ok.inj ((h.answer_get _).symm.trans hget))
  rw [Course.call, Course.reply, h.backend_eq]
  exact effect_run h.has_space hemail r.manager request now

theorem call (h : Follows initial r) (request : Request) (now : Reading) :
    Follows initial (r.call request now) := by
  refine ⟨?_, window_apply h.window request, (h.effect request now).answer_get h.window h.answer_get⟩
  rw [Course.call, h.backend_eq, run_eq_on (steady_request r.manager request now)]

theorem callAll (h : Follows initial r) (calls : List (Request × Reading)) :
    Follows initial (r.callAll calls) := by
  induction calls generalizing r with
  | nil => exact h
  | cons next calls ih => exact ih (h.call next.1 next.2)

theorem answer_eq (h : Follows initial r) (email key : String) (now : Reading) :
    r.answer email key now = verdict (marks initial email r.past) email key now := by
  have hanswer : r.answer email key now
      = (r.manager.validate now email key).answer r.backend.contents := by
    rw [Course.answer, h.backend_eq]
    rfl
  rw [hanswer, Manager.validate, answer_validate, h.answer_get email, verdict_eq]
  cases current email (marks initial email r.past) <;> rfl

end Follows

/-! ### Calls that make no difference -/

theorem Effect.differ {event : Event} (h : Effect m c event c') :
    Differ (fun s _ => s = space) c c' := by
  cases h with
  | none _ => exact .refl _
  | opened _ => exact .write rfl _
  | used _ _ => exact .write rfl _
  | closed _ => exact .remove rfl

theorem Effect.eq_of_none {event : Event} (h : Effect m c event c')
    (hmark : event.mark m.window = .none) : c' = c := by
  cases h with
  | none _ => rfl
  | opened hopened => rw [hmark] at hopened; contradiction
  | used hused _ => rw [hmark] at hused; contradiction
  | closed hclosed => rw [hmark] at hclosed; contradiction

/-- A failed call leaves no mark. -/
theorem mark_of_error {event : Event} {e : AuthError} (h : event.reply = .error e)
    (window : Duration) : event.mark window = none := by
  obtain ⟨request, now, reply⟩ := event
  obtain rfl : reply = .error e := h
  cases request <;> rfl

theorem email?_of_mark {event : Event} {email : String} {mark : Mark} {window : Duration}
    (h : event.mark window = some (email, mark)) : event.request.email? = some email := by
  obtain ⟨request, now, reply⟩ := event
  unfold Event.mark at h
  split at h
  all_goals first
    | contradiction
    | next heq =>
      cases heq
      cases Option.some.inj h
      rfl

/-- The answer to a call depends on the session and the account that it is for. -/
theorem answer_congr {email : String} {request : Request}
    (hconcerns : request.concerns email = true)
    (hget : (get email).answer c' = (get email).answer c)
    (huser : (IdentitySpace.users.load email).answer c' = (IdentitySpace.users.load email).answer c)
    (hhas : c.Has space) (hhas' : c'.Has space) (m : Manager) (now : Reading) :
    (request.run m now).answer c' = (request.run m now).answer c := by
  have hemail : ∀ {e}, request.email? = some e → e = email := by
    intro e he
    simpa [Request.concerns, he] using hconcerns
  have hvalidate : ∀ key, (validate now m.window email key).answer c'
      = (validate now m.window email key).answer c := by
    intro key
    rw [answer_validate, answer_validate, hget]
  cases request with
  | login e password =>
    obtain rfl := hemail rfl
    have hcheck : (IdentitySpace.users.checkPassword e password).answer c' = _ :=
      IdentitySpace.answer_checkPassword_congr huser
    rw [answer, answer, Request.run, Manager.login, on_map, on_map]
    cases hanswer : (IdentitySpace.users.checkPassword e password).answer c with
    | error _ => rw [on_login_error hanswer, on_login_error (hcheck.trans hanswer)]
    | ok _ => rw [on_login hhas hanswer, on_login hhas' (hcheck.trans hanswer)]
  | validate e key =>
    obtain rfl := hemail rfl
    rw [Request.run, Manager.validate, answer_map, answer_map, hvalidate]
  | logout e key =>
    obtain rfl := hemail rfl
    rw [Request.run, Manager.logout, answer_map, answer_map, answer_logout, answer_logout,
      hvalidate]
  | clear e =>
    obtain rfl := hemail rfl
    rw [answer, answer, Request.run, on_map, on_map, on_clear, on_clear, hget]
    rcases (get e).answer c with e | _ | session <;> rfl
  | setWindow window => rfl

/-- Two courses agree on the manager, the accounts and the session of an email. -/
structure Agree (initial : Duration) (email : String) (r r' : Course) : Prop where
  left : Follows initial r
  right : Follows initial r'
  manager : r'.manager = r.manager
  users : ∀ e, (IdentitySpace.users.load e).answer r'.backend.contents
    = (IdentitySpace.users.load e).answer r.backend.contents
  marks : marks initial email r'.past = marks initial email r.past

namespace Agree

variable {email : String} {r r' : Course} {request : Request}

theorem refl (h : Follows initial r) (email : String) : Agree initial email r r :=
  ⟨h, h, rfl, fun _ => rfl, rfl⟩

/-- Calls leave the accounts alone. -/
theorem load_call (h : Follows initial r) (request : Request) (now : Reading) (e : String) :
    (IdentitySpace.users.load e).answer (r.call request now).backend.contents
      = (IdentitySpace.users.load e).answer r.backend.contents :=
  Backend.answer_getRecord_of_differ (h.effect request now).differ (by decide)

/-- The same call, for the email or for the window, keeps them agreed. -/
theorem call (h : Agree initial email r r') (hconcerns : request.concerns email = true)
    (now : Reading) : Agree initial email (r.call request now) (r'.call request now) := by
  have hget : (get email).answer r'.backend.contents = (get email).answer r.backend.contents := by
    rw [h.left.answer_get, h.right.answer_get, h.marks]
  have hreply : r'.reply request now = r.reply request now := by
    rw [h.left.reply_eq, h.right.reply_eq, h.manager]
    exact answer_congr hconcerns hget (h.users email) h.left.has_space h.right.has_space
      r.manager now
  have hwindow : windowAfter initial r'.past = windowAfter initial r.past := by
    rw [← h.left.window, ← h.right.window, h.manager]
  refine ⟨h.left.call request now, h.right.call request now, ?_, fun e => ?_, ?_⟩
  · rw [Course.call, Course.call, h.manager]
  · rw [load_call h.left, load_call h.right, h.users]
  · rw [Course.call, Course.call, hreply]
    exact marks_congr h.marks hwindow _

/-- A call for another email leaves them agreed. -/
theorem skip (h : Agree initial email r r') (hconcerns : request.concerns email = false)
    (now : Reading) : Agree initial email (r.call request now) r' := by
  simp only [Request.concerns, Bool.or_eq_false_iff, beq_eq_false_iff_ne] at hconcerns
  refine ⟨h.left.call request now, h.right, ?_, fun e => ?_, ?_⟩
  · rw [h.manager]
    cases request with
    | setWindow window => exact absurd rfl hconcerns.2
    | _ => rfl
  · rw [load_call h.left, h.users]
  · rw [h.marks, Course.call]
    cases hmark :
        Event.mark (windowAfter initial r.past) ⟨request, now, r.reply request now⟩ with
    | none => rw [marks_of_none hmark]
    | some mark =>
      have hemail : request.email? = some mark.1 := email?_of_mark hmark
      rw [marks_of_ne hmark fun he => hconcerns.1 (hemail.trans (congrArg some he))]

theorem callAll (h : Agree initial email r r') (calls : List (Request × Reading)) :
    Agree initial email (r.callAll calls)
      (r'.callAll (calls.filter fun next => next.1.concerns email)) := by
  induction calls generalizing r r' with
  | nil => exact h
  | cons next calls ih =>
    cases hconcerns : next.1.concerns email with
    | true =>
      simp only [List.filter_cons, hconcerns, if_true]
      exact ih (h.call hconcerns next.2)
    | false =>
      simp only [List.filter_cons, hconcerns, Bool.false_eq_true, if_false]
      exact ih (h.skip hconcerns next.2)

end Agree

/-- After a failed call everything goes on as before it. -/
theorem Follows.call_of_error {r : Course} (h : Follows initial r) {request : Request}
    {now : Reading} {e : AuthError} (herror : r.reply request now = .error e) :
    (r.call request now).manager = r.manager ∧ (r.call request now).backend = r.backend := by
  have hmark : Event.mark r.manager.window ⟨request, now, r.reply request now⟩ = none :=
    mark_of_error herror _
  have hcontents := (h.effect request now).eq_of_none hmark
  refine ⟨?_, ?_⟩
  · cases request with
    | setWindow window =>
      rw [h.reply_eq] at herror
      contradiction
    | _ => rfl
  · have hfaults : (r.call request now).backend.faults = r.backend.faults :=
      (h.call request now).faults.trans h.faults.symm
    exact Backend.ext hcontents hfaults

theorem backend_callAll {r r' : Course} (hmanager : r'.manager = r.manager)
    (hbackend : r'.backend = r.backend) (calls : List (Request × Reading)) :
    (r'.callAll calls).manager = (r.callAll calls).manager ∧
      (r'.callAll calls).backend = (r.callAll calls).backend := by
  induction calls generalizing r r' with
  | nil => exact ⟨hmanager, hbackend⟩
  | cons next calls ih =>
    refine ih ?_ ?_
    · show next.1.apply r'.manager = next.1.apply r.manager
      rw [hmanager]
    · show ((next.1.run r'.manager next.2).run r'.backend).2
        = ((next.1.run r.manager next.2).run r.backend).2
      rw [hmanager, hbackend]

/-! ### The law of sessions -/

theorem lastKey_of_verdict {ms : List Mark} {email key : String} {now : Reading}
    (h : verdict ms email key now = .ok ()) : lastKey ms = some key := by
  rw [verdict] at h
  cases hlast : lastKey ms with
  | none =>
    rw [hlast] at h
    contradiction
  | some k =>
    simp only [hlast] at h
    by_cases hkey : key = k
    · rw [hkey]
    · rw [if_pos hkey] at h
      contradiction

theorem Course.follows_start (hhas : c.Has space) (hnone : ∀ k, c.value? space k = none)
    (window : Duration) : Follows window (.start window c) :=
  ⟨rfl, rfl, fun _ => Backend.answer_getRecord_eq_none_iff.2 ⟨hhas, .inl (hnone _)⟩⟩

/-- Logging out succeeds or fails as a use does. -/
theorem Follows.reply_logout {r : Course} (h : Follows initial r) (email key : String)
    (now : Reading) :
    r.reply (.logout email key) now = (r.answer email key now).map fun _ => .done := by
  rw [h.reply_eq, Request.run, answer_map, Manager.logout, answer_logout, Course.answer,
    h.backend_eq]
  rfl

theorem Course.reply_validate (r : Course) (email key : String) (now : Reading) :
    r.reply (.validate email key) now = (r.answer email key now).map fun _ => .done := by
  rw [reply, answer, Request.run, run_map]

/-- Over an empty namespace and without faults, the answer to a use of a session is told by the
marks that the calls made so far have left on it, and the window in force is the one that was last
asked for. Without the calls for other emails the answer is the same, and it is the same without a
call that fails. No two keys are accepted. -/
theorem answer_callAll {c : Contents} (hhas : c.Has space) (hnone : ∀ k, c.value? space k = none)
    (window : Duration) (calls : List (Request × Reading)) (email key : String) (now : Reading) :
    let start := Course.start window c
    let r := start.callAll calls
    r.answer email key now = verdict (marks window email r.past) email key now ∧
      r.past.map (fun event => (event.request, event.now)) = calls.reverse ∧
      r.manager.window = lastWindow window (calls.reverse.map Prod.fst) ∧
      (start.callAll (calls.filter fun next => next.1.concerns email)).answer email key now
        = r.answer email key now ∧
      (∀ request t e, r.reply request t = .error e → ∀ rest,
        (start.callAll (calls ++ (request, t) :: rest)).answer email key now
          = (start.callAll (calls ++ rest)).answer email key now) ∧
      ∀ key', r.answer email key now = .ok () → r.answer email key' now = .ok () →
        key' = key := by
  intro start r
  have hstart : Follows window start := Course.follows_start hhas hnone window
  have hr : Follows window r := hstart.callAll calls
  have hpast : r.past.map (fun event => (event.request, event.now)) = calls.reverse := by
    rw [Course.past_callAll]
    exact List.append_nil _
  refine ⟨hr.answer_eq email key now, hpast, ?_, ?_, fun request t e herror rest => ?_,
    fun key' hkey hkey' => ?_⟩
  · rw [hr.window, ← hpast, List.map_map]
    rfl
  · have hagree := (Agree.refl hstart email).callAll calls
    rw [hagree.right.answer_eq, hr.answer_eq, hagree.marks]
  · obtain ⟨hmanager, hbackend⟩ := hr.call_of_error herror
    obtain ⟨hmanager', hbackend'⟩ := backend_callAll hmanager hbackend rest
    have hcall : start.callAll (calls ++ (request, t) :: rest) = (r.call request t).callAll rest :=
      start.callAll_append calls _
    rw [hcall, start.callAll_append, Course.answer, Course.answer, hmanager', hbackend']
  · rw [hr.answer_eq] at hkey hkey'
    exact Option.some.inj ((lastKey_of_verdict hkey').symm.trans (lastKey_of_verdict hkey))

/-! ### A session under two windows -/

/-- A reading of the clock some seconds after the beginning of 1970. -/
def Reading.second (n : Fin 256) : Reading where
  val :=
    { Instant.first with
      second := n
      lower := by omega
      upper := by omega
      leap := fun h => absurd h (by decide) }
  property := Instant.plain_first

/-- The account of a user without a session. -/
def loggedOut : Contents :=
  Contents.write ((Dict.empty.insert IdentitySpace.users.name .empty).insert space .empty)
    IdentitySpace.users.name (Bytes.ofText "ann")
    (Record.encode (⟨"ann", .register "pass" "seed", none⟩ : Account))

theorem has_loggedOut : loggedOut.Has space := (has_write _ _).2 ((has_insert _ _).2 (.inl rfl))

theorem value?_loggedOut (k : Bytes) : loggedOut.value? space k = none := by
  rw [loggedOut, value?_write_of_ne fun h => absurd h.1 (by decide), value?, Dict.get?_insert_self]
  rfl

def annKey : String := Credential.issueToken "pass" (Reading.second 0).1.seed

def tenSeconds : Duration := .seconds 10

/-- A manager with a window of five minutes. -/
def opening : Course := .start defaultWindow loggedOut

/-- A user logs in, the window is changed, and the user uses the session later. -/
def renewal : List (Request × Reading) :=
  [(.login "ann" "pass", .second 0), (.setWindow tenSeconds, .second 0),
    (.validate "ann" annKey, .second 100)]

theorem follows_opening (calls : List (Request × Reading)) :
    Follows defaultWindow (opening.callAll calls) :=
  (Course.follows_start has_loggedOut value?_loggedOut defaultWindow).callAll calls

theorem reply_login : opening.reply (.login "ann" "pass") (.second 0) = .ok (.key annKey) := by
  have hhas : loggedOut.Has IdentitySpace.users.name :=
    (has_write _ _).2 ((has_insert _ _).2 (.inr ((has_insert _ _).2 (.inl rfl))))
  have hload : (IdentitySpace.users.load "ann").answer loggedOut = _ :=
    Backend.answer_getRecord_write hhas _
  have hcheck : (IdentitySpace.users.checkPassword "ann" "pass").answer loggedOut = .ok () :=
    IdentitySpace.answer_checkPassword_eq_ok_iff.2 ⟨_, hload, Credential.verify_register _ _⟩
  have hlogin : (opening.manager.login (Reading.second 0).1 "ann" "pass").on loggedOut = _ :=
    on_login has_loggedOut hcheck
  have hreply := (follows_opening []).reply_eq (.login "ann" "pass") (.second 0)
  rw [Request.run, answer_map, answer] at hreply
  exact hreply.trans (congrArg (fun r => Except.map Reply.key r.1) hlogin)

/-- The answer to a use of a session with the key of its last login. -/
theorem verdict_of_last {ms : List Mark} {key : String} {s : Reading} {window : Duration}
    (hkey : lastKey ms = some key) (huse : lastUse ms = some (s, window)) (email : String)
    (now : Reading) : verdict ms email key now =
      if min (s.1.toNanos + window.toNanos) Instant.last.toNanos ≤ now.1.toNanos then
        .error (.timedOut email)
      else .ok () := by
  simp only [verdict, hkey, huse, ne_eq, not_true_eq_false, if_false, Option.any_some,
    decide_eq_true_eq]

/-- The window of five minutes has been cut to ten seconds by the time of the last use. -/
theorem marks_renewal : marks defaultWindow "ann" (opening.callAll renewal).past
    = [.used (.second 100) tenSeconds, .opened annKey (.second 0) defaultWindow] := by
  have hlogin : Event.mark defaultWindow ⟨.login "ann" "pass", .second 0,
      opening.reply (.login "ann" "pass") (.second 0)⟩
        = some ("ann", .opened annKey (.second 0) defaultWindow) := by
    rw [reply_login]
    rfl
  have hopened : marks defaultWindow "ann" (opening.callAll (renewal.take 2)).past
      = [.opened annKey (.second 0) defaultWindow] :=
    (marks_of_none rfl).trans (marks_of_some hlogin)
  have hanswer :
      (opening.callAll (renewal.take 2)).answer "ann" annKey (.second 100) = .ok () := by
    rw [(follows_opening _).answer_eq, hopened, verdict_of_last rfl rfl]
    exact if_neg (by decide)
  have huse : Event.mark tenSeconds ⟨.validate "ann" annKey, .second 100,
      (opening.callAll (renewal.take 2)).reply (.validate "ann" annKey) (.second 100)⟩
        = some ("ann", .used (.second 100) tenSeconds) := by
    rw [Course.reply_validate, hanswer]
    rfl
  rw [← hopened]
  exact marks_of_some huse

theorem answer_callAll_renewal :
    (opening.callAll renewal).manager.window = tenSeconds ∧
      (opening.callAll renewal).answer "ann" annKey (.second 109) = .ok () ∧
      (opening.callAll renewal).answer "ann" annKey (.second 110) = .error (.timedOut "ann") ∧
      (opening.callAll renewal).answer "ann" "key" (.second 109) = .error (.badToken "ann") ∧
      (opening.callAll (renewal ++ [(.logout "ann" annKey, .second 105)])).answer
        "ann" annKey (.second 109) = .error (.notLoggedIn "ann") := by
  have hlaw := answer_callAll has_loggedOut value?_loggedOut defaultWindow
  have hwindow := (hlaw renewal "ann" annKey (.second 109)).2.2.1
  have hanswer : ∀ key now, (opening.callAll renewal).answer "ann" key now
      = verdict [.used (.second 100) tenSeconds, .opened annKey (.second 0) defaultWindow]
        "ann" key now := by
    intro key now
    rw [← marks_renewal]
    exact (hlaw renewal "ann" key now).1
  have hlive : ∀ now : Reading, (opening.callAll renewal).answer "ann" annKey now = _ :=
    fun now => (hanswer annKey now).trans (verdict_of_last rfl rfl "ann" now)
  have hwrong : "key" ≠ annKey := by
    intro heq
    have hlength : annKey.length = 64 := Credential.length_derive _ _
    rw [← heq] at hlength
    contradiction
  refine ⟨hwindow, (hlive (.second 109)).trans (if_neg (by decide)),
    (hlive (.second 110)).trans (if_pos (by decide)), ?_, ?_⟩
  · rw [hanswer]
    exact if_pos hwrong
  · have hused : (opening.callAll renewal).answer "ann" annKey (.second 105) = .ok () :=
      (hlive (.second 105)).trans (if_neg (by decide))
    have hlogout : Event.mark tenSeconds ⟨.logout "ann" annKey, .second 105,
        (opening.callAll renewal).reply (.logout "ann" annKey) (.second 105)⟩
          = some ("ann", .closed) := by
      rw [(follows_opening renewal).reply_logout, hused]
      rfl
    have hclosed : marks defaultWindow "ann"
        (opening.callAll (renewal ++ [(.logout "ann" annKey, .second 105)])).past = .closed :: _ :=
      marks_of_some hlogout
    exact (hlaw _ "ann" annKey (.second 109)).1.trans
      (congrArg (verdict · "ann" annKey (.second 109)) hclosed)

end AuthVault.Sessions
