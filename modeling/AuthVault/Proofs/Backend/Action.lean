import AuthVault.Proofs.Backend.Contents

/-!
# What actions do

`Action.on` is what an action makes of contents where no fault is armed. An action is `Atomic` if it
does that in every backend, unless an armed fault fires, in which case it fails without a trace. The
primitive calls are atomic (`atomic_perform`), and so is everything that reads first and writes at
the end (`ReadOnly.then`). Longer actions are taken apart at their binds (`on_bind`,
`run_bind_cases`); one is `Strict` if no fault gets past it, so that it succeeds only as it does where
none is armed, and it `Ignores` faults that wait for calls it does not make.
-/

namespace AuthVault

namespace Backend

theorem ext {b b' : Backend} (hcontents : b.contents = b'.contents)
    (hfaults : b.faults = b'.faults) :
    b = b' := by
  obtain ⟨c, faults⟩ := b
  obtain ⟨c', faults'⟩ := b'
  obtain rfl : c = c' := hcontents
  obtain rfl : faults = faults' := hfaults
  rfl

/-! ### Armed faults -/

theorem length_trip (call : Call) (space : String) (faults : List Fault) :
    (trip call space faults).2.length + (if (trip call space faults).1 then 1 else 0)
      = faults.length := by
  induction faults with
  | nil => rfl
  | cons f faults ih =>
    unfold trip
    by_cases hcall : f.call = call ∧ f.space = space
    · rw [if_pos hcall]
      by_cases hafter : f.after = 0
      · rw [if_pos hafter]
        rfl
      · rw [if_neg hafter]
        simp only [List.length_cons]
        omega
    · rw [if_neg hcall]
      simp only [List.length_cons]
      omega

/-- A call passes by faults that wait for other calls. -/
theorem trip_of_ne {call : Call} {space : String} {faults : List Fault}
    (h : ∀ f ∈ faults, ¬ (f.call = call ∧ f.space = space)) :
    trip call space faults = (false, faults) := by
  induction faults with
  | nil => rfl
  | cons f faults ih =>
    rw [trip, if_neg (h f List.mem_cons_self), ih fun f' hf' => h f' (List.mem_cons_of_mem f hf')]

end Backend

namespace Action

variable {α β : Type}

/-- What an action answers and leaves where no fault is armed. -/
def on (x : Action α) (c : Contents) : Except AuthError α × Contents :=
  ((x.run ⟨c, []⟩).1, (x.run ⟨c, []⟩).2.contents)

/-- What an action answers where no fault is armed. -/
def answer (x : Action α) (c : Contents) : Except AuthError α := (x.on c).1

/-- An action does to a backend what it does where no fault is armed, and none fires. -/
structure Undisturbed (x : Action α) (b : Backend) : Prop where
  on_eq : x.on b.contents = ((x.run b).1, (x.run b).2.contents)
  faults : (x.run b).2.faults.length = b.faults.length

/-- An action does what it does where no fault is armed, unless an armed fault fires. -/
def Steady (x : Action α) : Prop :=
  ∀ b, x.Undisturbed b ∨ (x.run b).2.faults.length < b.faults.length

/-- A fault fires, and the action fails for that reason. -/
structure Struck (x : Action α) (b : Backend) : Prop where
  answer : ∃ call, (x.run b).1 = .error (Backend.injected call)
  faults : (x.run b).2.faults.length < b.faults.length

/-- An action happens as a whole or not at all: it leaves no trace where it fails. -/
structure Atomic (x : Action α) : Prop where
  cases : ∀ b, x.Undisturbed b ∨ x.Struck b
  of_error : ∀ {b e}, (x.run b).1 = .error e → (x.run b).2.contents = b.contents

/-- An action is atomic and stores nothing. -/
structure ReadOnly (x : Action α) : Prop where
  atomic : x.Atomic
  on_snd : ∀ c, (x.on c).2 = c

/-! ### Actions where no fault is armed -/

theorem run_fst (x : Action α) (c : Contents) : (x.run ⟨c, []⟩).1 = (x.on c).1 := rfl

theorem run_contents (x : Action α) (c : Contents) : (x.run ⟨c, []⟩).2.contents = (x.on c).2 := rfl

theorem throw_bind (e : AuthError) (f : α → Action β) :
    (throw e >>= f : Action β) = throw e := rfl

theorem run_eq_on {x : Action α} (h : x.Steady) (c : Contents) :
    x.run ⟨c, []⟩ = ((x.on c).1, ⟨(x.on c).2, []⟩) := by
  have hfaults : (x.run ⟨c, []⟩).2.faults = [] := by
    rcases h ⟨c, []⟩ with h | h
    · exact List.length_eq_zero_iff.1 h.faults
    · exact absurd h (Nat.not_lt_zero _)
  unfold on
  cases hrun : x.run ⟨c, []⟩ with
  | mk r b =>
    obtain ⟨contents, faults⟩ := b
    rw [hrun] at hfaults
    rw [show faults = [] from hfaults]

theorem run_andThen (x : Action α) (next : Except AuthError α → Action β) (b : Backend) :
    (x.andThen next).run b = (next (x.run b).1).run (x.run b).2 := rfl

theorem run_bind_ok {x : Action α} {f : α → Action β} {b b' : Backend} {a : α}
    (h : x.run b = (.ok a, b')) : (x >>= f).run b = (f a).run b' := by
  rw [run_bind, h]

theorem run_bind_error {x : Action α} {f : α → Action β} {b b' : Backend} {e : AuthError}
    (h : x.run b = (.error e, b')) : (x >>= f).run b = (.error e, b') := by
  rw [run_bind, h]

/-- A sequence fails with its first part, or goes on with what that answers. -/
theorem run_bind_cases (x : Action α) (f : α → Action β) (b : Backend) :
    (∃ e, (x.run b).1 = .error e ∧ (x >>= f).run b = (.error e, (x.run b).2)) ∨
      ∃ a, (x.run b).1 = .ok a ∧ (x >>= f).run b = (f a).run (x.run b).2 := by
  cases hrun : x.run b with
  | mk r b' =>
    cases r with
    | error e => exact .inl ⟨e, rfl, run_bind_error hrun⟩
    | ok a => exact .inr ⟨a, rfl, run_bind_ok hrun⟩

theorem on_bind {x : Action α} (h : x.Steady) (f : α → Action β) (c : Contents) :
    (x >>= f).on c = match x.on c with
      | (.ok a, c') => (f a).on c'
      | (.error e, c') => (.error e, c') := by
  have hrun := run_eq_on h c
  cases hon : x.on c with
  | mk r c' =>
    rw [hon] at hrun
    cases r with
    | error e =>
      rw [on, run_bind_error hrun]
    | ok a =>
      rw [on, run_bind_ok hrun]
      rfl

theorem on_bind_ok {x : Action α} (h : x.Steady) {f : α → Action β} {c c' : Contents} {a : α}
    (hon : x.on c = (.ok a, c')) : (x >>= f).on c = (f a).on c' := by
  rw [on_bind h, hon]

theorem on_bind_error {x : Action α} (h : x.Steady) {f : α → Action β} {c c' : Contents}
    {e : AuthError} (hon : x.on c = (.error e, c')) : (x >>= f).on c = (.error e, c') := by
  rw [on_bind h, hon]

/-- What comes after an action matters only for what the action answers and leaves. -/
theorem on_bind_congr {x : Action α} (h : x.Steady) {f g : α → Action β} {c : Contents}
    (hfg : ∀ a c', x.on c = (.ok a, c') → (f a).on c' = (g a).on c') :
    (x >>= f).on c = (x >>= g).on c := by
  cases hon : x.on c with
  | mk r c' =>
    cases r with
    | error e => rw [on_bind_error h hon, on_bind_error h hon]
    | ok a => rw [on_bind_ok h hon, on_bind_ok h hon, hfg a c' hon]

theorem on_andThen {x : Action α} (h : x.Steady) (next : Except AuthError α → Action β)
    (c : Contents) : (x.andThen next).on c = (next (x.on c).1).on (x.on c).2 := by
  rw [on, run_andThen, run_eq_on h]
  rfl

theorem on_mapError {x : Action α} (h : x.Steady) (f : AuthError → AuthError) (c : Contents) :
    (x.mapError f).on c = ((x.on c).1.mapError f, (x.on c).2) := by
  have hrun := run_eq_on h c
  rw [on, run_mapError, hrun]
  cases (x.on c).1 <;> rfl

theorem Steady.andThen {x : Action α} {next : Except AuthError α → Action β} (hx : x.Steady)
    (hnext : ∀ r, (next r).Steady) : (x.andThen next).Steady := by
  intro b
  rw [run_andThen]
  rcases hx b with hb | hb
  · rcases hnext (x.run b).1 (x.run b).2 with hb' | hb'
    · refine .inl ⟨?_, ?_⟩
      · rw [on_andThen hx, hb.on_eq, hb'.on_eq, run_andThen]
      · rw [run_andThen, hb'.faults, hb.faults]
    · exact .inr (hb.faults ▸ hb')
  · rcases hnext (x.run b).1 (x.run b).2 with hb' | hb'
    · exact .inr (hb'.faults ▸ hb)
    · exact .inr (Nat.lt_trans hb' hb)

theorem Steady.bind {x : Action α} {f : α → Action β} (hx : x.Steady) (hf : ∀ a, (f a).Steady) :
    (x >>= f).Steady := by
  apply hx.andThen
  intro r
  cases r with
  | ok a => exact hf a
  | error e => exact fun _ => .inl ⟨rfl, rfl⟩

/-- No action arms a fault. -/
theorem Steady.faults_le {x : Action α} (h : x.Steady) (b : Backend) :
    (x.run b).2.faults.length ≤ b.faults.length := by
  rcases h b with hb | hb
  · exact Nat.le_of_eq hb.faults
  · exact Nat.le_of_lt hb

/-! ### Atomic actions -/

theorem atomic_perform (call : Call) (space : String)
    (act : Contents → Except BackendError (α × Contents)) :
    (Backend.perform call space act).Atomic := by
  constructor
  · intro b
    have hlength := Backend.length_trip call space b.faults
    cases htrip : Backend.trip call space b.faults with
    | mk fires faults =>
      rw [htrip] at hlength
      cases fires with
      | true =>
        have hrun : (Backend.perform call space act).run b
            = (.error (Backend.injected call), { b with faults }) := by
          simp only [run, Backend.perform, htrip, if_true]
        refine .inr ⟨⟨call, ?_⟩, ?_⟩
        all_goals rw [hrun]
        simp only [if_true] at hlength
        show faults.length < b.faults.length
        omega
      | false =>
        refine .inl ⟨?_, ?_⟩
        · simp only [on, run, Backend.perform, htrip, Backend.trip, Bool.false_eq_true, if_false]
          cases act b.contents <;> rfl
        · simp only [run, Backend.perform, htrip, Bool.false_eq_true, if_false] at hlength ⊢
          cases act b.contents <;> exact hlength
  · intro b e herror
    simp only [run, Backend.perform] at herror ⊢
    split
    · rfl
    · next hfires =>
      rw [if_neg hfires] at herror
      cases hact : act b.contents with
      | error e => rfl
      | ok r => rw [hact] at herror; contradiction

theorem Atomic.steady {x : Action α} (h : x.Atomic) : x.Steady :=
  fun b => (h.cases b).imp id Struck.faults

theorem Atomic.contents_cases {x : Action α} (h : x.Atomic) (b : Backend) :
    (x.run b).2.contents = b.contents ∨ (x.run b).2.contents = (x.on b.contents).2 := by
  rcases h.cases b with hb | hb
  · exact .inr (by rw [hb.on_eq])
  · obtain ⟨call, hcall⟩ := hb.answer
    exact .inl (h.of_error hcall)

/-- No fault fires on an atomic action that succeeds. -/
theorem Atomic.on_of_ok {x : Action α} (h : x.Atomic) {b : Backend} {a : α}
    (hok : (x.run b).1 = .ok a) : x.on b.contents = (.ok a, (x.run b).2.contents) := by
  rcases h.cases b with hb | hb
  · rw [hb.on_eq, hok]
  · obtain ⟨call, hcall⟩ := hb.answer
    rw [hok] at hcall
    contradiction

/-- Where an atomic action fails that has nothing in its way, a fault has fired. -/
theorem Atomic.struck_of_error {x : Action α} (h : x.Atomic) {b : Backend} {a : α} {e : AuthError}
    (hok : x.answer b.contents = .ok a) (herror : (x.run b).1 = .error e) : x.Struck b := by
  rcases h.cases b with hb | hb
  · rw [answer, hb.on_eq, herror] at hok
    contradiction
  · exact hb

theorem readOnly_pure (a : α) : (pure a : Action α).ReadOnly :=
  ⟨⟨fun _ => .inl ⟨rfl, rfl⟩, fun _ => rfl⟩, fun _ => rfl⟩

theorem readOnly_throw (e : AuthError) : (throw e : Action α).ReadOnly :=
  ⟨⟨fun _ => .inl ⟨rfl, rfl⟩, fun _ => rfl⟩, fun _ => rfl⟩

theorem ReadOnly.steady {x : Action α} (h : x.ReadOnly) : x.Steady := h.atomic.steady

theorem ReadOnly.on_eq {x : Action α} (h : x.ReadOnly) (c : Contents) :
    x.on c = (x.answer c, c) := Prod.ext rfl (h.on_snd c)

theorem ReadOnly.contents {x : Action α} (h : x.ReadOnly) (b : Backend) :
    (x.run b).2.contents = b.contents := by
  rcases h.atomic.contents_cases b with hb | hb
  · exact hb
  · rw [hb, h.on_snd]

theorem ReadOnly.answer_of_ok {x : Action α} (h : x.ReadOnly) {b : Backend} {a : α}
    (hok : (x.run b).1 = .ok a) : x.answer b.contents = .ok a := by
  rw [answer, h.atomic.on_of_ok hok]

theorem ReadOnly.on_ok {x : Action α} (h : x.ReadOnly) {f : α → Action β} {c : Contents} {a : α}
    (ha : x.answer c = .ok a) : (x >>= f).on c = (f a).on c :=
  on_bind_ok h.steady (by rw [h.on_eq, ha])

theorem ReadOnly.on_error {x : Action α} (h : x.ReadOnly) {f : α → Action β} {c : Contents}
    {e : AuthError} (he : x.answer c = .error e) : (x >>= f).on c = (.error e, c) :=
  on_bind_error h.steady (by rw [h.on_eq, he])

/-- A read ends with a failure that leaves everything as it is, or what comes next finds the same.
-/
theorem ReadOnly.run_bind_cases {x : Action α} (h : x.ReadOnly) (f : α → Action β) (b : Backend) :
    ((x >>= f).run b).2.contents = b.contents ∨ ∃ a b', b'.contents = b.contents ∧
      x.answer b.contents = .ok a ∧ (x >>= f).run b = (f a).run b' := by
  rcases Action.run_bind_cases x f b with ⟨e, -, hrun⟩ | ⟨a, hok, hrun⟩
  · rw [hrun]
    exact .inl (h.contents b)
  · exact .inr ⟨a, _, h.contents b, h.answer_of_ok hok, hrun⟩

/-- What comes after a read happens, or does not happen, as a whole. -/
theorem ReadOnly.then {x : Action α} {f : α → Action β} (hx : x.ReadOnly)
    (hf : ∀ a, (f a).Atomic) : (x >>= f).Atomic := by
  refine ⟨fun b => ?_, fun {b e} herror => ?_⟩
  · rcases hx.atomic.cases b with hb | hb
    · rcases Action.run_bind_cases x f b with ⟨e, he, hrun⟩ | ⟨a, ha, hrun⟩
      · refine .inl ⟨?_, hrun ▸ hb.faults⟩
        rw [hrun, on_bind_error hx.steady (hb.on_eq.trans (by rw [he]))]
      · have hon : (x >>= f).on b.contents = (f a).on (x.run b).2.contents :=
          on_bind_ok hx.steady (hb.on_eq.trans (by rw [ha]))
        rcases (hf a).cases (x.run b).2 with hfb | hfb
        · refine .inl ⟨?_, ?_⟩
          · rw [hon, hrun, hfb.on_eq]
          · rw [hrun, hfb.faults, hb.faults]
        · refine .inr ⟨?_, ?_⟩
          all_goals rw [hrun]
          · exact hfb.answer
          · exact hb.faults ▸ hfb.faults
    · obtain ⟨call, hcall⟩ := hb.answer
      rcases Action.run_bind_cases x f b with ⟨e, he, hrun⟩ | ⟨a, ha, hrun⟩
      · refine .inr ⟨⟨call, ?_⟩, hrun ▸ hb.faults⟩
        rw [he] at hcall
        rw [hrun, Except.error.inj hcall]
      · rw [ha] at hcall
        contradiction
  · rcases Action.run_bind_cases x f b with ⟨e', -, hrun⟩ | ⟨a, -, hrun⟩
    · rw [hrun, hx.contents]
    · rw [hrun] at herror ⊢
      rw [(hf a).of_error herror, hx.contents]

theorem ReadOnly.bind {x : Action α} {f : α → Action β} (hx : x.ReadOnly)
    (hf : ∀ a, (f a).ReadOnly) : (x >>= f).ReadOnly := by
  refine ⟨hx.then fun a => (hf a).atomic, fun c => ?_⟩
  rw [on_bind hx.steady, hx.on_eq]
  cases x.answer c with
  | error e => rfl
  | ok a => exact (hf a).on_snd c

/-- Of two atomic actions, the first leaves its trace where the second fails. -/
theorem Atomic.bind_of_error {x : Action α} {f : α → Action β} (hx : x.Atomic)
    (hf : ∀ a, (f a).Atomic) {b : Backend} {e : AuthError}
    (herror : ((x >>= f).run b).1 = .error e) :
    ((x >>= f).run b).2.contents = b.contents ∨ ∃ a, (x.run b).1 = .ok a ∧
      ((f a).run (x.run b).2).1 = .error e ∧
      ((x >>= f).run b).2.contents = (x.run b).2.contents := by
  rcases Action.run_bind_cases x f b with ⟨e', hfailed, hrun⟩ | ⟨a, hok, hrun⟩
  all_goals rw [hrun] at herror ⊢
  · exact .inl (hx.of_error hfailed)
  · exact .inr ⟨a, hok, herror, (hf a).of_error herror⟩

theorem run_map (x : Action α) (g : α → β) (b : Backend) :
    (g <$> x).run b = ((x.run b).1.map g, (x.run b).2) := by
  rw [← bind_pure_comp, run_bind]
  cases x.run b with
  | mk r b' => cases r <;> rfl

theorem on_map (x : Action α) (g : α → β) (c : Contents) :
    (g <$> x).on c = ((x.on c).1.map g, (x.on c).2) := by
  rw [on, run_map]
  rfl

theorem answer_map (x : Action α) (g : α → β) (c : Contents) :
    (g <$> x).answer c = (x.answer c).map g := by
  rw [answer, on_map]
  rfl

theorem Steady.map {x : Action α} (h : x.Steady) (g : α → β) : (g <$> x).Steady := by
  intro b
  rcases h b with hb | hb
  · refine .inl ⟨?_, run_map x g b ▸ hb.faults⟩
    rw [on_map, run_map, hb.on_eq]
  · exact .inr (run_map x g b ▸ hb)

theorem Atomic.map {x : Action α} (h : x.Atomic) (g : α → β) : (g <$> x).Atomic := by
  refine ⟨fun b => ?_, fun {b e} herror => ?_⟩
  · rcases h.cases b with hb | hb
    · refine .inl ⟨?_, run_map x g b ▸ hb.faults⟩
      rw [on_map, run_map, hb.on_eq]
    · obtain ⟨call, hcall⟩ := hb.answer
      refine .inr ⟨⟨call, ?_⟩, run_map x g b ▸ hb.faults⟩
      rw [run_map, hcall]
      rfl
  · rw [run_map] at herror ⊢
    cases hanswer : (x.run b).1 with
    | ok a => rw [hanswer] at herror; contradiction
    | error e' => exact h.of_error hanswer

/-- Renaming failures keeps an action read-only, as long as injected failures keep their names. -/
theorem ReadOnly.mapError {x : Action α} (h : x.ReadOnly) {f : AuthError → AuthError}
    (hf : ∀ call, f (Backend.injected call) = Backend.injected call) :
    (x.mapError f).ReadOnly := by
  have hrun : ∀ b, (x.mapError f).run b = ((x.run b).1.mapError f, (x.run b).2) := fun b => by
    rw [run_mapError]
    cases x.run b with
    | mk r b' => cases r <;> rfl
  refine ⟨⟨fun b => ?_, fun {b e} _ => ?_⟩, fun c => ?_⟩
  · rcases h.atomic.cases b with hb | hb
    · refine .inl ⟨?_, hrun b ▸ hb.faults⟩
      rw [on_mapError h.steady, hrun, hb.on_eq]
    · obtain ⟨call, hcall⟩ := hb.answer
      refine .inr ⟨⟨call, ?_⟩, hrun b ▸ hb.faults⟩
      rw [hrun, hcall]
      exact congrArg Except.error (hf call)
  · rw [hrun]
    exact h.contents b
  · rw [on_mapError h.steady, h.on_snd]

/-! ### Actions that no fault gets past -/

/-- An action that succeeds does what it does where no fault is armed. -/
def Strict (x : Action α) : Prop :=
  ∀ b a, (x.run b).1 = .ok a → x.on b.contents = (.ok a, (x.run b).2.contents)

theorem Atomic.strict {x : Action α} (h : x.Atomic) : x.Strict := fun _ _ => h.on_of_ok

theorem Strict.bind {x : Action α} {f : α → Action β} (hx : x.Strict) (hsteady : x.Steady)
    (hf : ∀ a, (f a).Strict) : (x >>= f).Strict := by
  intro b r hok
  rcases run_bind_cases x f b with ⟨e, -, hrun⟩ | ⟨a, ha, hrun⟩
  all_goals rw [hrun] at hok ⊢
  · contradiction
  · rw [on_bind_ok hsteady (hx b a ha)]
    exact hf a _ r hok

/-! ### Faults that wait for other calls -/

/-- Armed faults make no difference to an action, which leaves them armed. -/
def Ignores (x : Action α) (faults : List Fault) : Prop :=
  ∀ c, x.run ⟨c, faults⟩ = ((x.on c).1, ⟨(x.on c).2, faults⟩)

section Ignores

variable {faults : List Fault}

theorem ignores_pure (a : α) (faults : List Fault) : (pure a : Action α).Ignores faults :=
  fun _ => rfl

theorem ignores_throw (e : AuthError) (faults : List Fault) :
    (throw e : Action α).Ignores faults :=
  fun _ => rfl

theorem ignores_perform {call : Call} {space : String}
    (h : ∀ f ∈ faults, ¬ (f.call = call ∧ f.space = space))
    (act : Contents → Except BackendError (α × Contents)) :
    (Backend.perform call space act).Ignores faults := by
  intro c
  simp only [on, run, Backend.perform, Backend.trip_of_ne h, Backend.trip, Bool.false_eq_true,
    if_false]
  cases act c <;> rfl

theorem Ignores.andThen {x : Action α} {next : Except AuthError α → Action β} (h : x.Ignores faults)
    (hx : x.Steady) (hnext : ∀ r, (next r).Ignores faults) : (x.andThen next).Ignores faults := by
  intro c
  rw [run_andThen, h c, hnext, on_andThen hx]

theorem Ignores.bind {x : Action α} {f : α → Action β} (h : x.Ignores faults) (hx : x.Steady)
    (hf : ∀ a, (f a).Ignores faults) : (x >>= f).Ignores faults := by
  apply h.andThen hx
  intro r
  cases r with
  | ok a => exact hf a
  | error e => exact ignores_throw e faults

theorem Ignores.mapError {x : Action α} (h : x.Ignores faults) (hx : x.Steady)
    (f : AuthError → AuthError) : (x.mapError f).Ignores faults := by
  apply h.andThen hx
  intro r
  cases r with
  | ok a => exact ignores_pure a faults
  | error e => exact ignores_throw (f e) faults

end Ignores

/-! ### Failures of the store -/

/-- An action refuses nothing: where it fails, the status is that of a failure of the store. -/
def Internal (x : Action α) : Prop := ∀ b e, (x.run b).1 = .error e → e.status = 500

theorem internal_pure (a : α) : (pure a : Action α).Internal := fun _ _ h => by contradiction

theorem internal_perform (call : Call) (space : String)
    (act : Contents → Except BackendError (α × Contents)) :
    (Backend.perform call space act).Internal := by
  intro b e herror
  simp only [run, Backend.perform] at herror
  split at herror
  · rw [← Except.error.inj herror]
    rfl
  · cases hact : act b.contents with
    | error cause =>
      rw [hact] at herror
      rw [← Except.error.inj herror]
      rfl
    | ok r =>
      rw [hact] at herror
      contradiction

theorem Internal.bind {x : Action α} {f : α → Action β} (hx : x.Internal)
    (hf : ∀ a, (f a).Internal) : (x >>= f).Internal := by
  intro b e herror
  rcases run_bind_cases x f b with ⟨e', he', hrun⟩ | ⟨a, -, hrun⟩
  all_goals rw [hrun] at herror
  · rw [← Except.error.inj herror]
    exact hx b e' he'
  · exact hf a _ e herror

theorem Internal.map {x : Action α} (h : x.Internal) (g : α → β) : (g <$> x).Internal := by
  rw [← bind_pure_comp]
  exact h.bind fun a => internal_pure (g a)

/-! ### Changes in a backend with faults -/

section Differ

open Contents

variable {P : String → Bytes → Prop} {b : Backend}

/-- What an atomic action changes, it also changes where no fault is armed. -/
theorem Atomic.differ {x : Action α} (h : x.Atomic)
    (hon : Differ P b.contents (x.on b.contents).2) :
    Differ P b.contents (x.run b).2.contents := by
  rcases h.contents_cases b with hb | hb
  · rw [hb]
    exact .refl _
  · rw [hb]
    exact hon

theorem ReadOnly.differ {x : Action α} (h : x.ReadOnly) (b : Backend) :
    Differ P b.contents (x.run b).2.contents := by
  rw [h.contents b]
  exact .refl _

/-- What a sequence changes is changed by its first part, or after that has succeeded. -/
theorem differ_bind {x : Action α} {f : α → Action β}
    (hx : Differ P b.contents (x.run b).2.contents)
    (hf : ∀ a, (x.run b).1 = .ok a →
      Differ P (x.run b).2.contents ((f a).run (x.run b).2).2.contents) :
    Differ P b.contents ((x >>= f).run b).2.contents := by
  rcases run_bind_cases x f b with ⟨e, -, hrun⟩ | ⟨a, ha, hrun⟩
  · rw [hrun]
    exact hx
  · rw [hrun]
    exact hx.trans (hf a ha)

/-- What comes after a read finds the same contents, and knows what the read has answered. -/
theorem ReadOnly.differ_then {x : Action α} (hx : x.ReadOnly) {f : α → Action β}
    (hf : ∀ a b', b'.contents = b.contents → x.answer b.contents = .ok a →
      Differ P b'.contents ((f a).run b').2.contents) :
    Differ P b.contents ((x >>= f).run b).2.contents :=
  differ_bind (hx.differ b) fun a hok => hf a _ (hx.contents b) (hx.answer_of_ok hok)

theorem differ_map {x : Action α} (g : α → β) (hx : Differ P b.contents (x.run b).2.contents) :
    Differ P b.contents ((g <$> x).run b).2.contents := by
  rw [← bind_pure_comp]
  exact differ_bind hx fun _ _ => .refl _

theorem differ_andThen {x : Action α} {next : Except AuthError α → Action β}
    (hx : Differ P b.contents (x.run b).2.contents)
    (hnext : ∀ r b', Differ P b'.contents ((next r).run b').2.contents) :
    Differ P b.contents ((x.andThen next).run b).2.contents :=
  hx.trans (hnext _ _)

end Differ

end Action

end AuthVault
