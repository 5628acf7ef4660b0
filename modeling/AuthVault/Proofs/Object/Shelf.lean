import AuthVault.Proofs.Dict
import AuthVault.Proofs.Object

/-!
# The store of objects as a map

Where no fault is armed and nothing else writes into its namespace, the store of objects answers
every sequence of requests as a map from ids to owners and payloads does (`Shelf.step`), from the
empty one on (`reply_after`). The argument is a simulation: the namespace holds exactly what the map
says (`Holds`), each request keeps it so and is answered alike (`Holds.run`), and so do all of them
(`holds_after`). Bulk deletion takes one more induction, on the keys that it goes through
(`Holds.removeOwned`).

What the map does to one id (`Shelf.get?_step`) tells where a payload comes from: it is that of the
latest put that succeeded, and the id has not been absent since (`LatestPut`).
-/

namespace AuthVault.Objects

open AuthVault.Action Contents

/-! ### Requests -/

/-- The requests to the store of objects; to remove all objects of an owner, the keys are listed in
some order. -/
inductive Request
  | put (id : String) (payload : Bytes) (caller : String)
  | getPayload (id caller : String)
  | get (id caller : String)
  | delete (id caller : String)
  | deleteAll (listing : Listing Bytes) (owner : String)

inductive Reply
  | object (object : StoredObject)
  | payload (payload : Bytes)
  | done
  | count (n : Nat)

def Request.run : Request → Action Reply
  | put id payload caller => .object <$> Objects.put id payload caller
  | getPayload id caller => .payload <$> Objects.getPayload id caller
  | get id caller => .object <$> Objects.get id caller
  | delete id caller => (fun _ => .done) <$> Objects.delete id caller
  | deleteAll listing owner => .count <$> Objects.deleteAllIn listing owner

theorem getPayload_eq (id caller : String) :
    getPayload id caller = StoredObject.payload <$> get id caller := bind_pure_comp _ _

theorem Request.steady_run (r : Request) : r.run.Steady := by
  cases r with
  | put id payload caller => exact (atomic_put id payload caller).steady.map _
  | getPayload id caller =>
    rw [run, getPayload_eq]
    exact ((readOnly_get id caller).steady.map _).map _
  | get id caller => exact (readOnly_get id caller).steady.map _
  | delete id caller => exact (atomic_delete id caller).steady.map _
  | deleteAll listing owner => exact (steady_deleteAllIn listing owner).map _

/-- The backend that requests leave, the latest first, where no fault is armed in the beginning. -/
def after (c : Contents) : (past : List Request) → Backend
  | [] => ⟨c, []⟩
  | r :: past => (r.run.run (after c past)).2

/-- What the store answers to a request after others. -/
def reply (c : Contents) (past : List Request) (r : Request) : Except AuthError Reply :=
  (r.run.run (after c past)).1

/-! ### The map -/

/-- What is kept under an id. -/
structure Holding where
  owner : String
  payload : Bytes

def Holding.object (id : String) (h : Holding) : StoredObject := ⟨id, h.payload, ⟨h.owner⟩⟩

/-- A map from ids to owners and payloads. -/
abbrev Shelf := Dict String Holding

namespace Shelf

/-- What is kept under an id, for its owner. -/
def find (d : Shelf) (id caller : String) : Except AuthError Holding :=
  match d.get? id with
  | none => .error (.notFound ("object " ++ Text.quoted id))
  | some h => if h.owner = caller then .ok h else .error (.unauthorized caller)

/-- What the map answers to a request, and the map afterwards. -/
def step (d : Shelf) : Request → Except AuthError Reply × Shelf
  | .put id payload caller =>
    match d.get? id with
    | none => (.ok (.object ⟨id, payload, ⟨caller⟩⟩), d.insert id ⟨caller, payload⟩)
    | some h =>
      if h.owner = caller then
        (.ok (.object ⟨id, payload, ⟨h.owner⟩⟩), d.insert id { h with payload })
      else (.error (.unauthorized caller), d)
  | .getPayload id caller => ((d.find id caller).map fun h => .payload h.payload, d)
  | .get id caller => ((d.find id caller).map fun h => .object (h.object id), d)
  | .delete id caller =>
    match d.get? id with
    | none => (.ok .done, d)
    | some h =>
      if h.owner = caller then (.ok .done, d.erase id) else (.error (.unauthorized caller), d)
  | .deleteAll _ owner =>
    (.ok (.count (d.filter fun h => h.owner = owner).size), d.filter fun h => h.owner ≠ owner)

/-- The map after requests, the latest first, to the empty one. -/
def after : (past : List Request) → Shelf
  | [] => .empty
  | r :: past => ((after past).step r).2

/-- Whether the map has something of an owner under a key. -/
def owned (d : Shelf) (owner : String) (key : Bytes) : Bool :=
  ((Bytes.text? key).bind d.get?).any fun h => h.owner = owner

theorem owned_ofText (d : Shelf) (owner id : String) :
    d.owned owner (Bytes.ofText id) = (d.get? id).any fun h => h.owner = owner := by
  rw [owned, Bytes.text?_ofText, Option.bind_some]

/-- A put stores the payload for its caller, who is the owner if there is one, or it fails. -/
theorem step_put_cases (d : Shelf) (id : String) (payload : Bytes) (caller : String) :
    (∃ reply, d.step (.put id payload caller) = (.ok reply, d.insert id ⟨caller, payload⟩) ∧
        ∀ h, d.get? id = some h → h.owner = caller) ∨
      ∃ e, d.step (.put id payload caller) = (.error e, d) := by
  simp only [step]
  cases d.get? id with
  | none => exact .inl ⟨_, rfl, fun h hget => by contradiction⟩
  | some h =>
    by_cases howner : h.owner = caller
    · simp only [if_pos howner]
      refine .inl ⟨_, by rw [howner], fun h' hget => ?_⟩
      rw [← Option.some.inj hget, howner]
    · exact .inr ⟨_, if_neg howner⟩

/-- A request puts a payload under an id and succeeds, which takes the owner if there is one; or it
leaves what is under the id as it is, or nothing. -/
theorem get?_step (d : Shelf) (r : Request) (id : String) :
    (∃ payload caller reply, r = .put id payload caller ∧ (d.step r).1 = .ok reply ∧
        (d.step r).2.get? id = some ⟨caller, payload⟩ ∧
        ∀ h, d.get? id = some h → h.owner = caller) ∨
      (∀ payload caller, r = .put id payload caller → ∃ e, (d.step r).1 = .error e) ∧
        ((d.step r).2.get? id = d.get? id ∨ (d.step r).2.get? id = none) := by
  cases r with
  | put id' payload caller =>
    rcases d.step_put_cases id' payload caller with ⟨reply, hstep, howner⟩ | ⟨e, hstep⟩
    all_goals rw [hstep]
    · by_cases hid : id' = id
      · subst hid
        exact .inl ⟨payload, caller, reply, rfl, rfl, Dict.get?_insert_self _ _ _, howner⟩
      · exact .inr ⟨fun _ _ heq => absurd (Request.put.inj heq).1 hid,
          .inl (Dict.get?_insert_of_ne _ _ (Ne.symm hid))⟩
    · exact .inr ⟨fun _ _ _ => ⟨e, rfl⟩, .inl rfl⟩
  | getPayload id' caller => exact .inr ⟨fun _ _ h => by contradiction, .inl rfl⟩
  | get id' caller => exact .inr ⟨fun _ _ h => by contradiction, .inl rfl⟩
  | delete id' caller =>
    refine .inr ⟨fun _ _ h => by contradiction, ?_⟩
    simp only [step]
    split
    · exact .inl rfl
    · split
      · rw [Dict.get?_erase]
        split
        · exact .inr rfl
        · exact .inl rfl
      · exact .inl rfl
  | deleteAll listing owner =>
    refine .inr ⟨fun _ _ h => by contradiction, ?_⟩
    simp only [step, Dict.get?_filter]
    cases d.get? id with
    | none => exact .inl rfl
    | some h =>
      rw [Option.filter]
      split
      · exact .inl rfl
      · exact .inr rfl

end Shelf

/-! ### The store and the map -/

/-- The namespace of objects holds exactly what a map says. -/
structure Holds (c : Contents) (d : Shelf) : Prop where
  has : c.Has space
  value?_eq : ∀ key, c.value? space key
    = (Bytes.text? key).bind fun id => (d.get? id).map fun h => Record.encode (h.object id)

namespace Holds

variable {c : Contents} {d : Shelf}

theorem empty (hhas : c.Has space) (hempty : ∀ key, c.value? space key = none) :
    Holds c .empty := by
  refine ⟨hhas, fun key => ?_⟩
  rw [hempty]
  cases Bytes.text? key <;> rfl

theorem load (h : Holds c d) (id : String) :
    (load id).answer c = .ok ((d.get? id).map fun h => h.object id) := by
  have hvalue := h.value?_eq (Bytes.ofText id)
  rw [Bytes.text?_ofText, Option.bind_some] at hvalue
  cases hfound : d.get? id with
  | none =>
    rw [hfound] at hvalue
    exact Backend.answer_getRecord_eq_none_iff.2 ⟨h.has, .inl hvalue⟩
  | some holding =>
    rw [hfound] at hvalue
    exact Backend.answer_getRecord_eq_some_iff.2
      ⟨_, hvalue, LawfulRecord.encode_ne_nil _, LawfulRecord.decode_encode _⟩

theorem write (h : Holds c d) (id : String) (holding : Holding) :
    Holds (c.write space (Bytes.ofText id) (Record.encode (holding.object id)))
      (d.insert id holding) := by
  refine ⟨(has_write _ _).2 h.has, fun key => ?_⟩
  rw [value?_write h.has, h.value?_eq]
  cases htext : Bytes.text? key with
  | none =>
    rw [if_neg]
    · rfl
    · rintro ⟨-, rfl⟩
      rw [Bytes.text?_ofText] at htext
      contradiction
  | some id' =>
    rw [Bytes.text?_eq_some_iff.1 htext, Option.bind_some, Option.bind_some, Dict.get?_insert]
    by_cases hid : id' = id
    · rw [if_pos ⟨rfl, congrArg _ hid⟩, if_pos hid, hid]
      rfl
    · rw [if_neg fun heq => hid (Bytes.ofText_inj.1 heq.2), if_neg hid]

theorem remove (h : Holds c d) (id : String) :
    Holds (c.remove space (Bytes.ofText id)) (d.erase id) := by
  refine ⟨(has_remove _).2 h.has, fun key => ?_⟩
  rw [value?_remove, h.value?_eq]
  cases htext : Bytes.text? key with
  | none =>
    rw [Option.bind_none, ite_self]
    rfl
  | some id' =>
    rw [Bytes.text?_eq_some_iff.1 htext, Option.bind_some, Option.bind_some, Dict.get?_erase]
    by_cases hid : id' = id
    · rw [if_pos ⟨rfl, congrArg _ hid⟩, if_pos hid]
      rfl
    · rw [if_neg fun heq => hid (Bytes.ofText_inj.1 heq.2), if_neg hid]

/-! ### Bulk deletion -/

theorem visit (h : Holds c d) (owner : String) (key : Bytes) :
    ∃ c' d', (visit owner key).on c = (.ok (if d.owned owner key then 1 else 0), c') ∧
      Holds c' d' ∧ ∀ id,
        d'.get? id = if Bytes.ofText id = key ∧ d.owned owner key then none else d.get? id := by
  cases htext : Bytes.text? key with
  | none =>
    have howned : d.owned owner key = false := by rw [Shelf.owned, htext]; rfl
    rw [howned]
    exact ⟨c, d, on_visit_of_text?_eq_none htext c, h, fun id => by simp⟩
  | some id =>
    obtain rfl := Bytes.text?_eq_some_iff.1 htext
    have hvisit := on_visit owner id c
    rw [h.load] at hvisit
    rw [Shelf.owned_ofText, hvisit]
    cases d.get? id with
    | none => exact ⟨c, d, rfl, h, fun id' => by simp⟩
    | some holding =>
      rw [Option.any_some]
      by_cases howner : holding.owner = owner
      · rw [decide_eq_true howner]
        refine ⟨_, _, if_pos howner, h.remove id, fun id' => ?_⟩
        simp only [Dict.get?_erase, Bytes.ofText_inj, and_true]
      · rw [decide_eq_false howner]
        exact ⟨c, d, if_neg howner, h, fun id' => by simp⟩

theorem removeOwned (h : Holds c d) (owner : String) {keys : List Bytes} (hkeys : keys.Nodup)
    (removed : Nat) :
    ∃ c' d', (removeOwned owner keys removed).on c
        = (.ok (removed + keys.countP (d.owned owner)), c') ∧
      Holds c' d' ∧ ∀ id,
        d'.get? id = if Bytes.ofText id ∈ keys ∧ d.owned owner (Bytes.ofText id) then none
          else d.get? id := by
  induction keys generalizing c d removed with
  | nil => exact ⟨c, d, rfl, h, fun id => by simp⟩
  | cons key rest ih =>
    obtain ⟨hkey, hrest⟩ := List.nodup_cons.1 hkeys
    obtain ⟨c₁, d₁, hvisit, h₁, hget₁⟩ := h.visit owner key
    obtain ⟨c₂, d₂, hremove, h₂, hget₂⟩ := ih h₁ hrest
      (removed + if d.owned owner key then 1 else 0)
    -- the visit has left the ids of the other keys alone
    have howned : ∀ k, k ∈ rest → d₁.owned owner k = d.owned owner k := by
      intro k hk
      unfold Shelf.owned
      cases htext : Bytes.text? k with
      | none => rfl
      | some id =>
        obtain rfl := Bytes.text?_eq_some_iff.1 htext
        rw [Option.bind_some, Option.bind_some, hget₁,
          if_neg fun heq : Bytes.ofText id = key ∧ _ => hkey (heq.1 ▸ hk)]
    refine ⟨c₂, d₂, ?_, h₂, fun id => ?_⟩
    · rw [removeOwned_cons, on_bind_ok (atomic_visit owner key).steady hvisit, hremove,
        List.countP_cons, List.countP_congr fun k hk => by rw [howned k hk]]
      congr 2
      omega
    · rw [hget₂, hget₁]
      by_cases hid : Bytes.ofText id = key
      · rw [if_neg fun heq => hkey (hid ▸ heq.1)]
        simp [hid]
      · by_cases hmem : Bytes.ofText id ∈ rest
        · simp [hid, hmem, howned _ hmem]
        · simp [hid, hmem]

theorem deleteAllIn (h : Holds c d) (listing : Listing Bytes) (owner : String) :
    ((deleteAllIn listing owner).on c).1 = .ok (d.filter fun h => h.owner = owner).size ∧
      Holds ((deleteAllIn listing owner).on c).2 (d.filter fun h => h.owner ≠ owner) := by
  obtain ⟨t, ht⟩ := h.has
  have hperm := listing.perm t.keys
  have hmem : ∀ key, key ∈ t.keys ↔ key ∈ d.keys.map Bytes.ofText := by
    intro key
    rw [Dict.mem_keys_iff, List.mem_map, ← value?_of_get? ht, h.value?_eq]
    constructor
    · rintro ⟨value, hvalue⟩
      obtain ⟨id, htext, hid⟩ := Option.bind_eq_some_iff.1 hvalue
      obtain ⟨holding, hholding, -⟩ := Option.map_eq_some_iff.1 hid
      exact ⟨id, Dict.mem_keys_iff.2 ⟨holding, hholding⟩, (Bytes.text?_eq_some_iff.1 htext).symm⟩
    · rintro ⟨id, hid, rfl⟩
      obtain ⟨holding, hholding⟩ := Dict.mem_keys_iff.1 hid
      rw [Bytes.text?_ofText, Option.bind_some, hholding]
      exact ⟨_, rfl⟩
  have hids : (d.keys.map Bytes.ofText).Nodup :=
    List.Pairwise.map _ (fun _ _ hne heq => hne (Bytes.ofText_inj.1 heq)) d.nodup_keys
  have hcount : (listing.order t.keys).countP (d.owned owner)
      = (d.filter fun h => h.owner = owner).size := by
    rw [hperm.countP_eq, ((List.perm_ext_iff_of_nodup t.nodup_keys hids).2 hmem).countP_eq, List.countP_map,
      Dict.size_filter]
    exact List.countP_congr fun id _ => by rw [Function.comp, Shelf.owned_ofText]
  obtain ⟨c', d', hremove, h', hget⟩ := h.removeOwned owner (hperm.nodup_iff.2 t.nodup_keys) 0
  have hd' : d' = d.filter fun h => h.owner ≠ owner := by
    apply Dict.ext_get?
    intro id
    rw [hget, Dict.get?_filter, Shelf.owned_ofText]
    cases hfound : d.get? id with
    | none => rw [ite_self]; rfl
    | some holding =>
      have hid : Bytes.ofText id ∈ listing.order t.keys := hperm.mem_iff.2
        ((hmem _).2 (List.mem_map_of_mem (Dict.mem_keys_iff.2 ⟨holding, hfound⟩)))
      by_cases howner : holding.owner = owner
      · simp [hid, howner, Option.filter]
      · simp [howner, Option.filter]
  rw [Objects.deleteAllIn, on_bind_ok (Backend.readOnly_keys space).steady
    (Backend.on_keys_of_get? ht), hremove, hcount, Nat.zero_add]
  exact ⟨rfl, hd' ▸ h'⟩

/-! ### All requests -/

/-- The store answers a request as the map does, and holds what the map says afterwards. -/
theorem run (h : Holds c d) (r : Request) :
    (r.run.on c).1 = (d.step r).1 ∧ Holds (r.run.on c).2 (d.step r).2 := by
  have hget : ∀ id caller, (Objects.get id caller).on c
      = ((d.find id caller).map (Holding.object id), c) := by
    intro id caller
    rw [on_get, h.load, Shelf.find]
    cases d.get? id with
    | none => rfl
    | some holding =>
      by_cases howner : holding.owner = caller
      · simp only [Option.map_some]
        rw [if_pos (show (holding.object id).owner = caller from howner), if_pos howner]
        rfl
      · simp only [Option.map_some]
        rw [if_neg (show ¬ (holding.object id).owner = caller from howner), if_neg howner]
        rfl
  cases r with
  | put id payload caller =>
    rw [Request.run, on_map, on_put, h.load, Shelf.step]
    cases d.get? id with
    | none => exact ⟨rfl, h.write id ⟨caller, payload⟩⟩
    | some holding =>
      by_cases howner : holding.owner = caller
      · simp only [Option.map_some]
        rw [if_pos (show (holding.object id).owner = caller from howner), if_pos howner]
        exact ⟨rfl, h.write id ⟨holding.owner, payload⟩⟩
      · simp only [Option.map_some]
        rw [if_neg (show ¬ (holding.object id).owner = caller from howner), if_neg howner]
        exact ⟨rfl, h⟩
  | getPayload id caller =>
    rw [Request.run, on_map, getPayload_eq, on_map, hget, Shelf.step]
    refine ⟨?_, h⟩
    cases d.find id caller <;> rfl
  | get id caller =>
    rw [Request.run, on_map, hget, Shelf.step]
    refine ⟨?_, h⟩
    cases d.find id caller <;> rfl
  | delete id caller =>
    rw [Request.run, on_map, on_delete, h.load, Shelf.step]
    cases d.get? id with
    | none => exact ⟨rfl, h⟩
    | some holding =>
      by_cases howner : holding.owner = caller
      · simp only [Option.map_some]
        rw [if_pos (show (holding.object id).owner = caller from howner), if_pos howner]
        exact ⟨rfl, h.remove id⟩
      · simp only [Option.map_some]
        rw [if_neg (show ¬ (holding.object id).owner = caller from howner), if_neg howner]
        exact ⟨rfl, h⟩
  | deleteAll listing owner =>
    obtain ⟨hcount, hholds⟩ := h.deleteAllIn listing owner
    rw [Request.run, on_map, hcount]
    exact ⟨rfl, hholds⟩

end Holds

/-! ### Runs -/

/-- There is an object under an id. -/
def Present (id : String) (b : Backend) : Prop :=
  ∃ object, (load id).answer b.contents = .ok (some object)

/-- A put of a payload under an id has succeeded, and since then the id has been present, and no
other put under it has succeeded. The requests come latest first. -/
inductive LatestPut (c : Contents) (id : String) (payload : Bytes) : List Request → Prop
  | put {past : List Request} {caller : String} {answer : Reply}
      (hput : reply c past (.put id payload caller) = .ok answer) :
      LatestPut c id payload (.put id payload caller :: past)
  | later {past : List Request} {r : Request} (hpast : LatestPut c id payload past)
      (hpresent : Present id (after c (r :: past)))
      (hfailed : ∀ other caller, r = .put id other caller → ∃ e, reply c past r = .error e) :
      LatestPut c id payload (r :: past)

section Runs

variable {c : Contents} (hhas : c.Has space) (hempty : ∀ key, c.value? space key = none)

include hhas hempty

theorem holds_after (past : List Request) :
    ∃ c', after c past = ⟨c', []⟩ ∧ Holds c' (Shelf.after past) := by
  induction past with
  | nil => exact ⟨c, rfl, .empty hhas hempty⟩
  | cons r past ih =>
    obtain ⟨c', hafter, hholds⟩ := ih
    rw [after, hafter, run_eq_on r.steady_run]
    exact ⟨_, rfl, (hholds.run r).2⟩

theorem reply_eq_step (past : List Request) (r : Request) :
    reply c past r = ((Shelf.after past).step r).1 := by
  obtain ⟨c', hafter, hholds⟩ := holds_after hhas hempty past
  rw [reply, hafter, run_fst]
  exact (hholds.run r).1

theorem load_after (past : List Request) (id : String) :
    (load id).answer (after c past).contents
      = .ok (((Shelf.after past).get? id).map fun h => h.object id) := by
  obtain ⟨c', hafter, hholds⟩ := holds_after hhas hempty past
  rw [hafter]
  exact hholds.load id

theorem get?_after_of_load {past : List Request} {id : String} {object : StoredObject}
    (h : (load id).answer (after c past).contents = .ok (some object)) :
    ∃ holding, (Shelf.after past).get? id = some holding ∧ holding.object id = object := by
  rw [load_after hhas hempty] at h
  exact Option.map_eq_some_iff.1 (Except.ok.inj h)

/-- What the map has under an id comes from the latest put. -/
theorem latestPut_of_get? {past : List Request} {id : String} {h : Holding}
    (hget : (Shelf.after past).get? id = some h) : LatestPut c id h.payload past := by
  induction past generalizing h with
  | nil => contradiction
  | cons r past ih =>
    rcases (Shelf.after past).get?_step r id
      with ⟨payload, caller, answer, rfl, hput, hafter, -⟩ | ⟨hfailed, hkept | hgone⟩
    · rw [Shelf.after, hafter] at hget
      obtain rfl := Option.some.inj hget
      exact .put ((reply_eq_step hhas hempty past _).trans hput)
    · have hpresent : Present id (after c (r :: past)) :=
        ⟨h.object id, by rw [load_after hhas hempty, hget]; rfl⟩
      rw [Shelf.after, hkept] at hget
      refine .later (ih hget) hpresent fun other caller hr => ?_
      rw [reply_eq_step hhas hempty]
      exact hfailed other caller hr
    · rw [Shelf.after, hgone] at hget
      contradiction

/-- An owner stays the same as long as the id is present. -/
theorem owner_eq_of_get? {past during : List Request} {id : String} {h h' : Holding}
    (hpresent : ∀ later earlier, during = later ++ earlier →
      Present id (after c (earlier ++ past)))
    (hget : (Shelf.after past).get? id = some h)
    (hget' : (Shelf.after (during ++ past)).get? id = some h') : h'.owner = h.owner := by
  induction during generalizing h' with
  | nil =>
    rw [List.nil_append, hget] at hget'
    rw [Option.some.inj hget']
  | cons r during ih =>
    obtain ⟨object, hload⟩ := hpresent [r] during rfl
    obtain ⟨before, hbefore, -⟩ := get?_after_of_load hhas hempty hload
    have howner := ih
      (fun later earlier heq => hpresent (r :: later) earlier (congrArg _ heq)) hbefore
    rw [List.cons_append, Shelf.after] at hget'
    rcases (Shelf.after (during ++ past)).get?_step r id
      with ⟨payload, caller, answer, -, -, hput, hcaller⟩ | ⟨-, hkept | hgone⟩
    · rw [← howner, hcaller before hbefore, ← Option.some.inj (hput.symm.trans hget')]
    · rw [← howner, Option.some.inj (hbefore.symm.trans (hkept.symm.trans hget'))]
    · rw [hgone] at hget'
      contradiction

/-- From an empty namespace on, the store answers every request as the map does. So a payload that is
got is that of the latest put, and an owner stays the same as long as the id is present. -/
theorem reply_after (past : List Request) :
    (∀ r, reply c past r = ((Shelf.after past).step r).1) ∧
      (∀ id caller payload, reply c past (.getPayload id caller) = .ok (.payload payload) →
        LatestPut c id payload past) ∧
      ∀ during id object object',
        (∀ later earlier, during = later ++ earlier → Present id (after c (earlier ++ past))) →
        (load id).answer (after c past).contents = .ok (some object) →
        (load id).answer (after c (during ++ past)).contents = .ok (some object') →
        object'.owner = object.owner := by
  refine ⟨reply_eq_step hhas hempty past, fun id caller payload hgot => ?_,
    fun during id object object' hpresent hload hload' => ?_⟩
  · rw [reply_eq_step hhas hempty, Shelf.step, Shelf.find] at hgot
    cases hget : (Shelf.after past).get? id with
    | none => rw [hget] at hgot; contradiction
    | some h =>
      rw [hget] at hgot
      by_cases howner : h.owner = caller
      · simp only [if_pos howner] at hgot
        rw [← Reply.payload.inj (Except.ok.inj hgot)]
        exact latestPut_of_get? hhas hempty hget
      · simp only [if_neg howner] at hgot
        contradiction
  · obtain ⟨h, hget, rfl⟩ := get?_after_of_load hhas hempty hload
    obtain ⟨h', hget', rfl⟩ := get?_after_of_load hhas hempty hload'
    exact owner_eq_of_get? hhas hempty hpresent hget hget'

end Runs

/-- A put by someone else is refused, and the payload that is got is still that of the first one. -/
theorem reply_after_refused :
    let c := (setup.on .empty).2
    let past : List Request := [.put "note" [2] "eve", .put "note" [1] "ann"]
    c.Has space ∧ (∀ key, c.value? space key = none) ∧
      reply c past (.put "note" [3] "eve") = .error (.unauthorized "eve") ∧
      LatestPut c "note" [1] past := by
  intro c past
  have hhas : c.Has space := ⟨_, rfl⟩
  have hempty : ∀ key, c.value? space key = none := fun _ => rfl
  obtain ⟨hreply, hlatest, -⟩ := reply_after hhas hempty past
  exact ⟨hhas, hempty, (hreply _).trans rfl, hlatest "note" "ann" [1] ((hreply _).trans rfl)⟩

end AuthVault.Objects
