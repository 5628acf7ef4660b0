import AuthVault.Proofs.Object

/-!
# Payloads that make no difference

Two backends are alike for an owner if the same faults are armed in them and their contents differ in
payloads of objects of the owner at most (`Veiled`). An action is blind to these payloads if it
answers alike on such backends and leaves them alike (`Blind`). Actions made of blind parts are blind
(`Blind.bind`, `Blind.andThen`), and so are the primitive calls, except for reading an object. What
comes after that is blind if it depends on the owner and the id of an object that it finds, not on
the payload (`blind_load_bind`); so it is for every operation on objects but reading for the owner.
-/

namespace AuthVault

open AuthVault.Action Contents

variable {α β : Type} {owner : String}

/-! ### Contents and backends alike -/

namespace Contents

/-- Contents that differ in payloads of objects of an owner at most. -/
structure Veiled (owner : String) (c c' : Contents) : Prop where
  has_iff : ∀ s, c'.Has s ↔ c.Has s
  value?_cases : ∀ s k, c'.value? s k = c.value? s k ∨ s = Objects.space ∧
    ∃ (object : StoredObject) (payload : Bytes), object.owner = owner ∧
      c.value? s k = some (Record.encode object) ∧
      c'.value? s k = some (Record.encode { object with payload })

namespace Veiled

variable {c c' : Contents} {space : String} {key : Bytes}

theorem value?_eq (h : Veiled owner c c') (hs : space ≠ Objects.space) (key : Bytes) :
    c'.value? space key = c.value? space key :=
  (h.value?_cases space key).resolve_right fun hobject => hs hobject.1

theorem isSome_value? (h : Veiled owner c c') (space : String) (key : Bytes) :
    (∃ value, c'.value? space key = some value) ↔ ∃ value, c.value? space key = some value := by
  rcases h.value?_cases space key with heq | ⟨-, object, payload, -, hvalue, hvalue'⟩
  · rw [heq]
  · exact ⟨fun _ => ⟨_, hvalue⟩, fun _ => ⟨_, hvalue'⟩⟩

theorem write (h : Veiled owner c c') (hhas : c.Has space) (key value : Bytes) :
    Veiled owner (c.write space key value) (c'.write space key value) := by
  refine ⟨fun s => ?_, fun s k => ?_⟩
  · rw [has_write, has_write, h.has_iff]
  · rw [value?_write hhas, value?_write ((h.has_iff space).2 hhas)]
    split
    · exact .inl rfl
    · exact h.value?_cases s k

theorem remove (h : Veiled owner c c') (space : String) (key : Bytes) :
    Veiled owner (c.remove space key) (c'.remove space key) := by
  refine ⟨fun s => ?_, fun s k => ?_⟩
  · rw [has_remove, has_remove, h.has_iff]
  · rw [value?_remove, value?_remove]
    split
    · exact .inl rfl
    · exact h.value?_cases s k

/-- Storing an object of the owner with either payload. -/
theorem of_write (hhas : c.Has Objects.space) (key : Bytes) {object : StoredObject}
    (howner : object.owner = owner) (payload : Bytes) :
    Veiled owner (c.write Objects.space key (Record.encode object))
      (c.write Objects.space key (Record.encode { object with payload })) := by
  refine ⟨fun s => ?_, fun s k => ?_⟩
  · rw [has_write, has_write]
  · by_cases hsk : s = Objects.space ∧ k = key
    · obtain ⟨rfl, rfl⟩ := hsk
      exact .inr ⟨rfl, object, payload, howner, value?_write_self hhas _, value?_write_self hhas _⟩
    · exact .inl (by rw [value?_write_of_ne hsk, value?_write_of_ne hsk])

end Veiled

end Contents

/-- Backends whose contents differ in payloads of objects of an owner at most. -/
structure Backend.Alike (owner : String) (b b' : Backend) : Prop where
  contents : Veiled owner b.contents b'.contents
  faults : b'.faults = b.faults

/-! ### Blind actions -/

namespace Action

/-- An action answers alike on backends that are alike, and leaves them alike. -/
def Blind (owner : String) (x : Action α) : Prop :=
  ∀ b b', b.Alike owner b' →
    (x.run b').1 = (x.run b).1 ∧ (x.run b).2.Alike owner (x.run b').2

theorem blind_pure (a : α) : Blind owner (pure a : Action α) := fun _ _ h => ⟨rfl, h⟩

theorem blind_throw (e : AuthError) : Blind owner (throw e : Action α) := fun _ _ h => ⟨rfl, h⟩

theorem Blind.andThen {x : Action α} {next : Except AuthError α → Action β} (hx : Blind owner x)
    (hnext : ∀ r, Blind owner (next r)) : Blind owner (x.andThen next) := by
  intro b b' h
  obtain ⟨hanswer, halike⟩ := hx b b' h
  have hrun : ∀ b, (x.andThen next).run b = (next (x.run b).1).run (x.run b).2 := fun _ => rfl
  rw [hrun, hrun, hanswer]
  exact hnext _ _ _ halike

theorem Blind.bind {x : Action α} {f : α → Action β} (hx : Blind owner x)
    (hf : ∀ a, Blind owner (f a)) : Blind owner (x >>= f) := by
  apply hx.andThen
  intro r
  cases r with
  | ok a => exact hf a
  | error e => exact blind_throw e

theorem Blind.map {x : Action α} (hx : Blind owner x) (g : α → β) : Blind owner (g <$> x) := by
  rw [← bind_pure_comp]
  exact hx.bind fun a => blind_pure (g a)

theorem Blind.mapError {x : Action α} (hx : Blind owner x) (f : AuthError → AuthError) :
    Blind owner (x.mapError f) := by
  apply hx.andThen
  intro r
  cases r with
  | ok a => exact blind_pure a
  | error e => exact blind_throw (f e)

end Action

/-! ### Primitive calls -/

namespace Backend

variable {space : String}

/-- A fault fires on a primitive call in both backends, or the call does in each what it does where
no fault is armed. -/
theorem perform_cases {x : Action α} {call : Call}
    {act : Contents → Except BackendError (α × Contents)} (hx : x = perform call space act)
    {b b' : Backend} (hfaults : b'.faults = b.faults) :
    ∃ faults, x.run b = (.error (injected call), ⟨b.contents, faults⟩) ∧
        x.run b' = (.error (injected call), ⟨b'.contents, faults⟩) ∨
      x.run b = ((x.on b.contents).1, ⟨(x.on b.contents).2, faults⟩) ∧
        x.run b' = ((x.on b'.contents).1, ⟨(x.on b'.contents).2, faults⟩) := by
  subst hx
  cases htrip : trip call space b.faults with
  | mk fires faults =>
    refine ⟨faults, ?_⟩
    simp only [on, run, perform, trip, hfaults, htrip, Bool.false_eq_true, if_false]
    cases fires with
    | true => exact .inl ⟨rfl, rfl⟩
    | false => exact .inr ⟨by cases act b.contents <;> rfl, by cases act b'.contents <;> rfl⟩

/-- A primitive call on a namespace is blind if it is where the namespace exists. -/
theorem blind_perform {x : Action α} {call : Call}
    {act : Contents → Except BackendError (α × Contents)} (hx : x = perform call space act)
    (hhas : ∀ c c', Veiled owner c c' → c.Has space → c'.Has space →
      ∃ a d d', x.on c = (.ok a, d) ∧ x.on c' = (.ok a, d') ∧ Veiled owner d d')
    (hnot : ∀ c, ¬ c.Has space → x.on c = (.error (.backend (.namespaceNotFound space)), c)) :
    Blind owner x := by
  intro b b' h
  obtain ⟨faults, ⟨hrun, hrun'⟩ | ⟨hrun, hrun'⟩⟩ := perform_cases hx h.faults
  all_goals rw [hrun, hrun']
  · exact ⟨rfl, h.contents, rfl⟩
  by_cases hspace : b.contents.Has space
  · obtain ⟨a, d, d', hd, hd', hveiled⟩ :=
      hhas _ _ h.contents hspace ((h.contents.has_iff space).2 hspace)
    rw [hd, hd']
    exact ⟨rfl, hveiled, rfl⟩
  · rw [hnot _ hspace, hnot _ (mt (h.contents.has_iff space).1 hspace)]
    exact ⟨rfl, h.contents, rfl⟩

theorem blind_put (space : String) (key value : Bytes) : Blind owner (put space key value) :=
  blind_perform rfl
    (fun _ _ h hc hc' => ⟨(), _, _, on_put hc _ _, on_put hc' _ _, h.write hc key value⟩)
    fun _ hc => on_put_of_not_has hc _ _

theorem blind_delete (space : String) (key : Bytes) : Blind owner (delete space key) :=
  blind_perform rfl
    (fun _ _ h hc hc' => ⟨(), _, _, on_delete hc _, on_delete hc' _, h.remove space key⟩)
    fun _ hc => on_delete_of_not_has hc _

theorem blind_get (hs : space ≠ Objects.space) (key : Bytes) : Blind owner (get space key) :=
  blind_perform rfl
    (fun _ _ h hc hc' => ⟨_, _, _, on_get hc key, h.value?_eq hs key ▸ on_get hc' key, h⟩)
    fun _ hc => on_get_of_not_has hc _

theorem blind_keys (space : String) : Blind owner (keys space) := by
  refine blind_perform rfl (fun c c' h hc hc' => ?_) fun _ hc => on_keys_of_not_has hc
  obtain ⟨t, ht⟩ := hc
  obtain ⟨t', ht'⟩ := hc'
  have hkeys : t'.keys = t.keys := by
    apply Dict.keys_eq_of_mem_iff
    intro key
    rw [← value?_of_get? ht, ← value?_of_get? ht']
    exact h.isSome_value? space key
  exact ⟨t.keys, _, _, on_keys_of_get? ht, hkeys ▸ on_keys_of_get? ht', h⟩

/-! ### Records -/

section Records

variable [Record α]

theorem blind_recordOf (stored : Option Bytes) :
    Blind owner (recordOf stored : Action (Option α)) := by
  unfold recordOf
  split
  · exact blind_pure _
  · exact blind_pure _
  · split
    · exact blind_pure _
    · exact blind_throw _

theorem blind_getRecord (hs : space ≠ Objects.space) (key : String) :
    Blind owner (getRecord space key : Action (Option α)) :=
  (blind_get hs _).bind blind_recordOf

theorem recordOf_encode [LawfulRecord α] (x : α) :
    (recordOf (some (Record.encode x)) : Action (Option α)) = pure (some x) := by
  have hne := LawfulRecord.encode_ne_nil x
  unfold recordOf
  split
  · next heq => cases heq
  · next heq => exact absurd (Option.some.inj heq) hne
  · next heq =>
    rw [← Option.some.inj heq, LawfulRecord.decode_encode]

end Records

end Backend

/-! ### Objects -/

namespace Objects

/-- Reading an entry of an object gives the same in both backends, or the object of the owner with
either payload. -/
theorem get_cases {b b' : Backend} (h : b.Alike owner b') (key : Bytes) :
    ∃ d d', Backend.Alike owner d d' ∧
      ((∃ r, (Backend.get space key).run b = (r, d) ∧ (Backend.get space key).run b' = (r, d')) ∨
        ∃ (object : StoredObject) (payload : Bytes), object.owner = owner ∧
          (Backend.get space key).run b = (.ok (some (Record.encode object)), d) ∧
          (Backend.get space key).run b'
            = (.ok (some (Record.encode { object with payload })), d')) := by
  obtain ⟨faults, ⟨hrun, hrun'⟩ | ⟨hrun, hrun'⟩⟩ :=
    Backend.perform_cases (x := Backend.get space key) rfl h.faults
  all_goals refine ⟨⟨b.contents, faults⟩, ⟨b'.contents, faults⟩, ⟨h.contents, rfl⟩, ?_⟩
  · exact .inl ⟨_, hrun, hrun'⟩
  by_cases hspace : b.contents.Has space
  · rw [Backend.on_get hspace] at hrun
    rw [Backend.on_get ((h.contents.has_iff space).2 hspace)] at hrun'
    rcases h.contents.value?_cases space key with heq | ⟨-, object, payload, howner, hvalue, hvalue'⟩
    · exact .inl ⟨_, hrun, heq ▸ hrun'⟩
    · exact .inr ⟨object, payload, howner, hvalue ▸ hrun, hvalue' ▸ hrun'⟩
  · rw [Backend.on_get_of_not_has hspace] at hrun
    rw [Backend.on_get_of_not_has (mt (h.contents.has_iff space).1 hspace)] at hrun'
    exact .inl ⟨_, hrun, hrun'⟩

/-- What comes after a look-up is blind if it does not depend on the payload of an object of the
owner. -/
theorem blind_load_bind {id : String} {f : Option StoredObject → Action β}
    (hf : ∀ found, Blind owner (f found))
    (hpayload : ∀ (object : StoredObject) (payload : Bytes), object.owner = owner →
      f (some { object with payload }) = f (some object)) :
    Blind owner (load id >>= f) := by
  rw [load, Backend.getRecord, bind_assoc]
  intro b b' h
  obtain ⟨d, d', halike, ⟨r, hrun, hrun'⟩ | ⟨object, payload, howner, hrun, hrun'⟩⟩ :=
    get_cases h (Bytes.ofText id)
  · cases r with
    | error e =>
      rw [run_bind_error hrun, run_bind_error hrun']
      exact ⟨rfl, halike⟩
    | ok stored =>
      rw [run_bind_ok hrun, run_bind_ok hrun']
      exact ((Backend.blind_recordOf stored).bind hf) d d' halike
  · rw [run_bind_ok hrun, run_bind_ok hrun', Backend.recordOf_encode, Backend.recordOf_encode,
      pure_bind, pure_bind, hpayload object payload howner]
    exact hf (some object) d d' halike

/-- What is done for the owner of an object must not depend on the payload if it is done for the
owner at all. -/
theorem blind_load_forOwner {id caller : String} {absent : Action β}
    {present : StoredObject → Action β} (habsent : Blind owner absent)
    (hpresent : ∀ object, Blind owner (present object))
    (hpayload : owner = caller → ∀ (object : StoredObject) (payload : Bytes),
      present { object with payload } = present object) :
    Blind owner (load id >>= forOwner caller absent present) := by
  refine blind_load_bind (fun found => ?_) fun object payload howner => ?_
  · cases found with
    | none => exact habsent
    | some object =>
      rw [forOwner]
      split
      · exact hpresent object
      · exact blind_throw _
  · show (if object.owner = caller then present { object with payload } else _) = _
    rw [forOwner]
    split
    · next hcaller => exact hpayload (howner.symm.trans hcaller) object payload
    · rfl

theorem blind_store (object : StoredObject) : Blind owner (store object) :=
  (Backend.blind_put _ _ _).map _

theorem blind_put (id : String) (payload : Bytes) (caller : String) :
    Blind owner (put id payload caller) := by
  rw [put_eq]
  exact blind_load_forOwner (blind_store _) (fun _ => blind_store _) fun _ _ _ => rfl

/-- Reading is blind for everyone but the owner. -/
theorem blind_get {caller : String} (hcaller : caller ≠ owner) (id : String) :
    Blind owner (get id caller) := by
  rw [get_eq]
  exact blind_load_forOwner (blind_throw _) blind_pure fun heq => absurd heq.symm hcaller

theorem blind_delete (id caller : String) : Blind owner (delete id caller) := by
  rw [delete_eq]
  exact blind_load_forOwner (blind_pure _) (fun _ => Backend.blind_delete _ _) fun _ _ _ => rfl

theorem blind_visit (email : String) (key : Bytes) : Blind owner (visit email key) := by
  unfold visit
  cases Bytes.text? key with
  | none => exact blind_pure _
  | some id =>
    refine blind_load_bind (fun found => ?_) fun _ _ _ => rfl
    cases found with
    | none => exact blind_pure _
    | some object =>
      simp only
      split
      · exact (Backend.blind_delete _ _).map _
      · exact blind_pure _

theorem blind_removeOwned (email : String) (keys : List Bytes) (removed : Nat) :
    Blind owner (removeOwned email keys removed) := by
  induction keys generalizing removed with
  | nil => exact blind_pure _
  | cons key rest ih =>
    rw [removeOwned_cons]
    exact (blind_visit email key).bind fun n => ih (removed + n)

theorem blind_deleteAllIn (listing : Listing Bytes) (email : String) :
    Blind owner (deleteAllIn listing email) :=
  (Backend.blind_keys space).bind fun _ => blind_removeOwned email _ 0

end Objects

end AuthVault
