import AuthVault.Proofs.Service.Listing

/-!
# Whatever happens to a service

`reached past` is what a new service has become by operations, and by faults that have been armed in
between and make operations stop wherever they may. Records may then
lack what they refer to, but each is in its place (`filed_reached`), can be read, and is found where a
look-up goes (`Tidy`, `tidy_reached`). An object that is not there comes only by an operation that
puts it (`value?_reached_append`).
-/

namespace AuthVault.Service

open AuthVault.Action Contents
open IdentitySpace (users)

variable {c : Contents} {email : String}

/-! ### Everything that can happen -/

/-- An operation at a moment, or a fault that is armed. -/
inductive Event
  | step (step : Operation × Moment)
  | fault (fault : Fault)

def Event.run : Event → Backend → Backend
  | .step s, b => ((s.1.run s.2).run b).2
  | .fault f, b => b.arm f

/-- What a new service has become by events, the latest first. -/
def reached : (past : List Event) → Backend
  | [] => (setup.run .empty).2
  | event :: past => event.run (reached past)

/-- Without faults, it is what operations have made of it. -/
theorem reached_map_step (past : List (Operation × Moment)) :
    reached (past.map .step) = after past := by
  induction past with
  | nil => rfl
  | cons step past ih => rw [List.map_cons, reached, ih, Event.run, after]

/-- An event that may put an object under an id. -/
def Event.Puts (id : String) : Event → Prop
  | .step s => s.1.Puts id
  | .fault _ => False

theorem Event.adds (event : Event) (b : Backend) :
    Adds (Filed fun id => event.Puts id) b.contents (event.run b).contents := by
  cases event with
  | step step => exact stores_run step.1 step.2 b
  | fault fault => exact .refl _

/-- Whatever happens, the namespaces are those of the beginning. -/
theorem has_reached (past : List Event) (s : String) :
    (reached past).contents.Has s ↔ s ∈ namespaces := by
  induction past with
  | nil =>
    rw [reached, run_setup]
    exact has_initial s
  | cons event past ih => exact ((event.adds (reached past)).has_iff s).trans ih

/-- Whatever happens, every entry is a record in its place. -/
theorem filed_reached (past : List Event) {s : String} {k v : Bytes}
    (hv : (reached past).contents.value? s k = some v) : Filed (fun _ => True) s k v := by
  induction past with
  | nil =>
    rw [reached, run_setup, value?_initial] at hv
    contradiction
  | cons event past ih =>
    rcases (event.adds (reached past)).of_value? s k v hv with hbefore | hfiled
    · exact ih hbefore
    · exact hfiled.mono fun _ _ => trivial

/-- Where there is no object under an id, there is none until one is put there. -/
theorem value?_reached_append {past : List Event} (later : List Event) {id : String}
    (habsent : (reached past).contents.value? Objects.space (Bytes.ofText id) = none)
    (hputs : ∀ event ∈ later, ¬ event.Puts id) :
    (reached (later ++ past)).contents.value? Objects.space (Bytes.ofText id) = none := by
  induction later with
  | nil => exact habsent
  | cons event later ih =>
    have hnone := ih fun event' hmem => hputs event' (List.mem_cons_of_mem event hmem)
    rw [Option.eq_none_iff_forall_ne_some]
    intro v hv
    rcases (event.adds (reached (later ++ past))).of_value? _ _ v hv with hbefore | hfiled
    · rw [hnone] at hbefore
      contradiction
    · obtain ⟨object, named, hid, -⟩ := hfiled.of_object
      rw [← Bytes.ofText_inj.1 hid] at named
      exact hputs event List.mem_cons_self named

/-! ### Records in their places can be read -/

/-- All namespaces exist, and every entry is a record in its place. -/
structure Tidy (c : Contents) : Prop where
  has : ∀ s ∈ namespaces, c.Has s
  filed : ∀ {s k v}, c.value? s k = some v → Filed (fun _ => True) s k v

theorem tidy_reached (past : List Event) : Tidy (reached past).contents :=
  ⟨fun s => (has_reached past s).2, filed_reached past⟩

namespace Tidy

theorem load_user (h : Tidy c) (huser : HasUser c email) :
    email ≠ "" ∧ ∃ account, (users.load email).answer c = .ok (some account) := by
  obtain ⟨v, hv⟩ := huser
  obtain ⟨account, hnamed, hkey, rfl⟩ := (h.filed hv).of_user
  rw [← Bytes.ofText_inj.1 hkey] at hnamed
  exact ⟨hnamed, account, Backend.answer_getRecord_of_value? (hkey ▸ hv)⟩

theorem get_session (h : Tidy c) (email : String) :
    ∃ found, (Sessions.get email).answer c = .ok found := by
  apply Backend.exists_answer_getRecord (h.has _ (by decide))
  intro v hv
  obtain ⟨session, -, rfl⟩ := (h.filed hv).of_session
  exact ⟨session, LawfulRecord.encode_ne_nil session, LawfulRecord.decode_encode session⟩

theorem readable (h : Tidy c) : Objects.Readable c := by
  refine fun id => Backend.exists_answer_getRecord (h.has _ (by decide)) fun v hv => ?_
  obtain ⟨object, -, -, rfl⟩ := (h.filed hv).of_object
  exact ⟨object, LawfulRecord.encode_ne_nil object, LawfulRecord.decode_encode object⟩

theorem deletable (h : Tidy c) (email : String) : Deletable c email :=
  ⟨h.get_session email, h.readable⟩

end Tidy

end AuthVault.Service
