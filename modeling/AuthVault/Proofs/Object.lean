import AuthVault.Object
import AuthVault.Proofs.Backend.Records

/-!
# What the operations on objects do

Storing, reading and removing an object are told by the object found under its id (`on_put`,
`on_get`, `on_delete`): only its owner gets past the look-up (`forOwner`). Bulk deletion goes through
keys one by one and may stop on its way; what it has removed by then are objects of the owner
(`purged_removeOwned`, an induction on the keys). Where no fault is armed and every object can be
read, it removes all of them (`on_deleteAllIn`), and since there is one way to do that
(`Emptied.unique`), it does not matter in which order the keys are listed.
-/

namespace AuthVault.Objects

open AuthVault.Action Contents

variable {c c' c'' : Contents} {id caller owner : String} {payload : Bytes} {object : StoredObject}

theorem readOnly_load (id : String) : (load id).ReadOnly := Backend.readOnly_getRecord _ _

/-! ### Single objects -/

/-- What comes after a look-up where an object is for its owner alone. -/
def forOwner {β : Type} (caller : String) (absent : Action β) (present : StoredObject → Action β) :
    Option StoredObject → Action β
  | none => absent
  | some object => if object.owner = caller then present object else throw (.unauthorized caller)

section ForOwner

variable {β : Type} {absent : Action β} {present : StoredObject → Action β}

theorem atomic_forOwner (habsent : absent.Atomic) (hpresent : ∀ object, (present object).Atomic)
    (found : Option StoredObject) : (forOwner caller absent present found).Atomic := by
  cases found with
  | none => exact habsent
  | some object =>
    rw [forOwner]
    split
    · exact hpresent object
    · exact (readOnly_throw _).atomic

theorem readOnly_forOwner (habsent : absent.ReadOnly) (hpresent : ∀ object, (present object).ReadOnly)
    (found : Option StoredObject) : (forOwner caller absent present found).ReadOnly := by
  cases found with
  | none => exact habsent
  | some object =>
    rw [forOwner]
    split
    · exact hpresent object
    · exact readOnly_throw _

theorem on_load_forOwner (id : String) (c : Contents) :
    (load id >>= forOwner caller absent present).on c = match (load id).answer c with
      | .error e => (.error e, c)
      | .ok none => absent.on c
      | .ok (some object) =>
        if object.owner = caller then (present object).on c
        else (.error (.unauthorized caller), c) := by
  rcases h : (load id).answer c with e | _ | object
  · rw [(readOnly_load id).on_error h]
  · rw [(readOnly_load id).on_ok h]
    rfl
  · rw [(readOnly_load id).on_ok h, forOwner]
    simp only
    split <;> rfl

end ForOwner

/-- What comes after the check is reached by the owner alone. -/
theorem authorize_bind {β : Type} (object : StoredObject) (caller : String) (f : Unit → Action β) :
    (authorize object.perms caller >>= f)
      = if object.owner = caller then f () else throw (.unauthorized caller) := by
  unfold authorize Permissions.authorize
  by_cases h : object.owner = caller
  · rw [if_pos h, show object.perms.owner = caller from h, if_pos rfl]
    rfl
  · rw [if_neg h, if_neg (show ¬ object.perms.owner = caller from h)]
    rfl

/-- Stores an object and returns it. -/
def store (object : StoredObject) : Action StoredObject :=
  (fun _ => object) <$> Backend.putRecord space object.id object

theorem atomic_store (object : StoredObject) : (store object).Atomic :=
  (Backend.atomic_put _ _ _).map _

theorem on_store (h : c.Has space) (object : StoredObject) : (store object).on c =
    (.ok object, c.write space (Bytes.ofText object.id) (Record.encode object)) := by
  rw [store, ← bind_pure_comp, Backend.putRecord,
    on_bind_ok (Backend.atomic_put _ _ _).steady (Backend.on_put h _ _)]
  rfl

theorem put_eq (id : String) (payload : Bytes) (caller : String) : put id payload caller =
    load id >>= forOwner caller (store ⟨id, payload, ⟨caller⟩⟩)
      fun object => store ⟨id, payload, object.perms⟩ := by
  unfold put
  congr 1
  funext found
  cases found with
  | none => rfl
  | some object => exact authorize_bind object caller _

theorem get_eq (id caller : String) : get id caller =
    load id >>= forOwner caller (throw (.notFound ("object " ++ Text.quoted id))) pure := by
  unfold get
  congr 1
  funext found
  cases found with
  | none => rfl
  | some object => exact authorize_bind object caller _

theorem delete_eq (id caller : String) : delete id caller =
    load id >>= forOwner caller (pure ()) fun _ => Backend.delete space (Bytes.ofText id) := by
  unfold delete
  congr 1
  funext found
  cases found with
  | none => rfl
  | some object => exact authorize_bind object caller _

theorem atomic_put (id : String) (payload : Bytes) (caller : String) :
    (put id payload caller).Atomic := by
  rw [put_eq]
  exact (readOnly_load id).then (atomic_forOwner (atomic_store _) fun _ => atomic_store _)

theorem readOnly_get (id caller : String) : (get id caller).ReadOnly := by
  rw [get_eq]
  exact (readOnly_load id).bind (readOnly_forOwner (readOnly_throw _) readOnly_pure)

theorem atomic_delete (id caller : String) : (delete id caller).Atomic := by
  rw [delete_eq]
  exact (readOnly_load id).then
    (atomic_forOwner (readOnly_pure _).atomic fun _ => Backend.atomic_delete _ _)

/-- A new object belongs to the caller, an old one keeps its owner, who alone may store it. -/
theorem on_put (c : Contents) : (put id payload caller).on c =
    match (load id).answer c with
    | .error e => (.error e, c)
    | .ok none => (.ok ⟨id, payload, ⟨caller⟩⟩,
        c.write space (Bytes.ofText id) (Record.encode (⟨id, payload, ⟨caller⟩⟩ : StoredObject)))
    | .ok (some object) =>
      if object.owner = caller then (.ok ⟨id, payload, object.perms⟩,
        c.write space (Bytes.ofText id)
          (Record.encode (⟨id, payload, object.perms⟩ : StoredObject)))
      else (.error (.unauthorized caller), c) := by
  rw [put_eq, on_load_forOwner]
  rcases h : (load id).answer c with e | _ | object
  · rfl
  · exact on_store (Backend.has_of_answer_getRecord h) _
  · simp only [on_store (Backend.has_of_answer_getRecord h)]

theorem on_get (c : Contents) : (get id caller).on c =
    match (load id).answer c with
    | .error e => (.error e, c)
    | .ok none => (.error (.notFound ("object " ++ Text.quoted id)), c)
    | .ok (some object) =>
      if object.owner = caller then (.ok object, c) else (.error (.unauthorized caller), c) := by
  rw [get_eq, on_load_forOwner]
  rfl

/-- An object is removed for its owner alone; where there is none, nothing is to be done. -/
theorem on_delete (c : Contents) : (delete id caller).on c =
    match (load id).answer c with
    | .error e => (.error e, c)
    | .ok none => (.ok (), c)
    | .ok (some object) =>
      if object.owner = caller then (.ok (), c.remove space (Bytes.ofText id))
      else (.error (.unauthorized caller), c) := by
  rw [delete_eq, on_load_forOwner]
  rcases h : (load id).answer c with e | _ | object
  · rfl
  · rfl
  · simp only [Backend.on_delete (Backend.has_of_answer_getRecord h)]

/-! ### Bulk deletion -/

/-- Entries that are objects of an owner may be gone; all else is as before. -/
structure Purged (owner : String) (c c' : Contents) : Prop where
  has_iff : ∀ s, c'.Has s ↔ c.Has s
  value?_eq : ∀ s k, c'.value? s k = c.value? s k ∨ c'.value? s k = none ∧ s = space ∧
    ∃ id object, k = Bytes.ofText id ∧ (load id).answer c = .ok (some object) ∧ object.owner = owner

theorem Purged.refl (c : Contents) : Purged owner c c := ⟨fun _ => .rfl, fun _ _ => .inl rfl⟩

theorem Purged.trans (h : Purged owner c c') (h' : Purged owner c' c'') : Purged owner c c'' := by
  refine ⟨fun s => (h'.has_iff s).trans (h.has_iff s), fun s k => ?_⟩
  rcases h'.value?_eq s k with heq | ⟨hnone, rfl, id, object, rfl, hload, howner⟩
  · rw [heq]
    exact h.value?_eq s k
  · rcases h.value?_eq space (Bytes.ofText id) with heq | hgone
    · have hsame : (load id).answer c' = (load id).answer c :=
        Backend.answer_getRecord_congr (h.has_iff space) heq
      exact .inr ⟨hnone, rfl, id, object, rfl, hsame ▸ hload, howner⟩
    · exact .inr ⟨hnone, hgone.2⟩

theorem Purged.remove (hload : (load id).answer c = .ok (some object))
    (howner : object.owner = owner) :
    Purged owner c (c.remove space (Bytes.ofText id)) := by
  refine ⟨fun s => has_remove s, fun s k => ?_⟩
  by_cases h : s = space ∧ k = Bytes.ofText id
  · obtain ⟨rfl, rfl⟩ := h
    exact .inr ⟨value?_remove_self, rfl, id, object, rfl, hload, howner⟩
  · exact .inl (value?_remove_of_ne h)

theorem Purged.differ {P : String → Bytes → Prop} (h : Purged owner c c')
    (hP : ∀ id object, (load id).answer c = .ok (some object) → object.owner = owner →
      P space (Bytes.ofText id)) : Differ P c c' := by
  refine ⟨h.has_iff, fun s k hne => ?_⟩
  rcases h.value?_eq s k with heq | ⟨-, rfl, id, object, rfl, hload, howner⟩
  · exact absurd heq hne
  · exact hP id object hload howner

theorem Purged.value?_of_some (h : Purged owner c c') {s : String} {k value : Bytes}
    (hvalue : c'.value? s k = some value) : c.value? s k = some value := by
  rcases h.value?_eq s k with heq | ⟨hnone, -⟩
  · rw [← heq, hvalue]
  · rw [hnone] at hvalue
    contradiction

/-- Removes the object under a key if it belongs to an owner, and tells how many were removed. -/
def visit (owner : String) (key : Bytes) : Action Nat :=
  match Bytes.text? key with
  | none => pure 0
  | some id => load id >>= fun found =>
    match found with
    | some object =>
      if object.owner = owner then (fun _ => 1) <$> Backend.delete space (Bytes.ofText id)
      else pure 0
    | none => pure 0

theorem removeOwned_cons (owner : String) (key : Bytes) (rest : List Bytes) (removed : Nat) :
    removeOwned owner (key :: rest) removed
      = visit owner key >>= fun n => removeOwned owner rest (removed + n) := by
  rw [removeOwned, visit]
  cases Bytes.text? key with
  | none => rfl
  | some id =>
    simp only [bind_assoc]
    congr 1
    funext found
    cases found with
    | none => simp only [pure_bind, Nat.add_zero]
    | some object =>
      simp only
      split
      · simp only [bind_map_left]
      · simp only [pure_bind, Nat.add_zero]

theorem atomic_visit (owner : String) (key : Bytes) : (visit owner key).Atomic := by
  unfold visit
  cases Bytes.text? key with
  | none => exact (readOnly_pure _).atomic
  | some id =>
    apply (readOnly_load id).then
    intro found
    cases found with
    | none => exact (readOnly_pure _).atomic
    | some object =>
      show (if object.owner = owner then _ else _ : Action Nat).Atomic
      split
      · exact (Backend.atomic_delete _ _).map _
      · exact (readOnly_pure _).atomic

theorem internal_visit (owner : String) (key : Bytes) : (visit owner key).Internal := by
  unfold visit
  cases Bytes.text? key with
  | none => exact internal_pure _
  | some id =>
    apply (Backend.internal_getRecord _ _).bind
    intro found
    cases found with
    | none => exact internal_pure _
    | some object =>
      show (if object.owner = owner then _ else _ : Action Nat).Internal
      split
      · exact (internal_perform _ _ _).map _
      · exact internal_pure _

theorem on_visit_of_text?_eq_none {key : Bytes} (h : Bytes.text? key = none) (c : Contents) :
    (visit owner key).on c = (.ok 0, c) := by
  unfold visit
  rw [h]
  rfl

theorem on_visit (owner id : String) (c : Contents) : (visit owner (Bytes.ofText id)).on c =
    match (load id).answer c with
    | .error e => (.error e, c)
    | .ok none => (.ok 0, c)
    | .ok (some object) =>
      if object.owner = owner then (.ok 1, c.remove space (Bytes.ofText id)) else (.ok 0, c) := by
  rw [visit, Bytes.text?_ofText]
  rcases h : (load id).answer c with e | _ | object
  · exact (readOnly_load id).on_error h
  · exact (readOnly_load id).on_ok h
  · rw [show ∀ f : Option StoredObject → Action Nat, (load id >>= f).on c = (f (some object)).on c
      from fun f => (readOnly_load id).on_ok h]
    simp only
    split
    · rw [← bind_pure_comp, on_bind_ok (Backend.atomic_delete _ _).steady
        (Backend.on_delete (Backend.has_of_answer_getRecord h) _)]
      rfl
    · rfl

theorem purged_visit (owner : String) (key : Bytes) (b : Backend) :
    Purged owner b.contents ((visit owner key).run b).2.contents := by
  rcases (atomic_visit owner key).contents_cases b with hb | hb
  · rw [hb]
    exact .refl _
  · rw [hb]
    cases htext : Bytes.text? key with
    | none =>
      rw [on_visit_of_text?_eq_none htext]
      exact .refl _
    | some id =>
      rw [Bytes.text?_eq_some_iff.1 htext, on_visit]
      rcases hload : (load id).answer b.contents with e | _ | object
      · exact .refl _
      · exact .refl _
      · simp only
        split
        · next howner => exact .remove hload howner
        · exact .refl _

/-- However far bulk deletion comes, it removes objects of the owner only. -/
theorem purged_removeOwned (owner : String) (keys : List Bytes) (removed : Nat) (b : Backend) :
    Purged owner b.contents ((removeOwned owner keys removed).run b).2.contents := by
  induction keys generalizing removed b with
  | nil => exact .refl _
  | cons key rest ih =>
    rw [removeOwned_cons]
    rcases run_bind_cases (visit owner key) (fun n => removeOwned owner rest (removed + n)) b
      with ⟨e, -, hrun⟩ | ⟨n, -, hrun⟩
    · rw [hrun]
      exact purged_visit owner key b
    · rw [hrun]
      exact (purged_visit owner key b).trans (ih (removed + n) _)

theorem purged_deleteAllIn (listing : Listing Bytes) (owner : String) (b : Backend) :
    Purged owner b.contents ((deleteAllIn listing owner).run b).2.contents := by
  rcases run_bind_cases (Backend.keys space) (fun ks => removeOwned owner (listing.order ks) 0) b
    with ⟨e, -, hrun⟩ | ⟨ks, -, hrun⟩
  all_goals rw [deleteAllIn, hrun, ← (Backend.readOnly_keys space).contents b]
  · exact .refl _
  · exact purged_removeOwned owner _ 0 _

theorem steady_removeOwned (owner : String) (keys : List Bytes) (removed : Nat) :
    (removeOwned owner keys removed).Steady := by
  induction keys generalizing removed with
  | nil => exact (readOnly_pure _).steady
  | cons key rest ih =>
    rw [removeOwned_cons]
    exact (atomic_visit owner key).steady.bind fun n => ih (removed + n)

theorem steady_deleteAllIn (listing : Listing Bytes) (owner : String) :
    (deleteAllIn listing owner).Steady :=
  (Backend.readOnly_keys space).steady.bind fun _ => steady_removeOwned owner _ 0

theorem strict_removeOwned (owner : String) (keys : List Bytes) (removed : Nat) :
    (removeOwned owner keys removed).Strict := by
  induction keys generalizing removed with
  | nil => exact (readOnly_pure _).atomic.strict
  | cons key rest ih =>
    rw [removeOwned_cons]
    have hvisit := atomic_visit owner key
    exact hvisit.strict.bind hvisit.steady fun n => ih (removed + n)

theorem strict_deleteAllIn (listing : Listing Bytes) (owner : String) :
    (deleteAllIn listing owner).Strict := by
  have hkeys := (Backend.readOnly_keys space).atomic
  exact hkeys.strict.bind hkeys.steady fun _ => strict_removeOwned owner _ 0

theorem internal_removeOwned (owner : String) (keys : List Bytes) (removed : Nat) :
    (removeOwned owner keys removed).Internal := by
  induction keys generalizing removed with
  | nil => exact internal_pure _
  | cons key rest ih =>
    rw [removeOwned_cons]
    exact (internal_visit owner key).bind fun n => ih (removed + n)

theorem internal_deleteAllIn (listing : Listing Bytes) (owner : String) :
    (deleteAllIn listing owner).Internal :=
  (internal_perform _ _ _).bind fun _ => internal_removeOwned owner _ 0

/-- Every object can be read. -/
def Readable (c : Contents) : Prop := ∀ id, ∃ found, (load id).answer c = .ok found

/-- Objects can be read as before where none of their entries differ. -/
theorem Readable.differ {P : String → Bytes → Prop} (h : Readable c) (hdiffer : Differ P c c')
    (hP : ∀ key, ¬ P space key) : Readable c' := by
  intro id
  obtain ⟨found, hfound⟩ := h id
  exact ⟨found, (Backend.answer_getRecord_of_differ hdiffer (hP _)).trans hfound⟩

theorem Readable.purged (h : Readable c) (hpurged : Purged owner c c') : Readable c' := by
  intro id
  rcases hpurged.value?_eq space (Bytes.ofText id) with heq | ⟨hnone, -⟩
  · obtain ⟨found, hfound⟩ := h id
    exact ⟨found, (Backend.answer_getRecord_congr (hpurged.has_iff space) heq).trans hfound⟩
  · obtain ⟨found, hfound⟩ := h id
    exact ⟨none, Backend.answer_getRecord_eq_none_iff.2
      ⟨(hpurged.has_iff space).2 (Backend.has_of_answer_getRecord hfound), .inl hnone⟩⟩

theorem Purged.value?_eq_none (h : Purged owner c c') {k : Bytes}
    (hnone : c.value? space k = none) :
    c'.value? space k = none := by
  rcases h.value?_eq space k with heq | ⟨hgone, -⟩
  · rw [heq, hnone]
  · exact hgone

/-- Where every object can be read, a visit succeeds and leaves no object of the owner under its
key. -/
theorem on_visit_of_readable (h : Readable c) (owner : String) (key : Bytes) :
    ∃ n c', (visit owner key).on c = (.ok n, c') ∧ Purged owner c c' ∧ ∀ id object,
      key = Bytes.ofText id → (load id).answer c = .ok (some object) → object.owner = owner →
        c'.value? space key = none := by
  cases htext : Bytes.text? key with
  | none =>
    refine ⟨0, c, on_visit_of_text?_eq_none htext c, .refl c, fun id object hkey => ?_⟩
    rw [hkey, Bytes.text?_ofText] at htext
    contradiction
  | some id =>
    obtain rfl := Bytes.text?_eq_some_iff.1 htext
    have hvisit := on_visit owner id c
    obtain ⟨found, hfound⟩ := h id
    rw [hfound] at hvisit
    rcases found with _ | object
    · refine ⟨0, c, hvisit, .refl c, fun id' object hkey hload => ?_⟩
      rw [← Bytes.ofText_inj.1 hkey, hfound] at hload
      cases hload
    · by_cases howner : object.owner = owner
      · simp only [if_pos howner] at hvisit
        exact ⟨1, _, hvisit, .remove hfound howner, fun _ _ _ _ _ => value?_remove_self⟩
      · simp only [if_neg howner] at hvisit
        refine ⟨0, c, hvisit, .refl c, fun id' object' hkey hload howner' => ?_⟩
        rw [← Bytes.ofText_inj.1 hkey, hfound] at hload
        rw [Option.some.inj (Except.ok.inj hload)] at howner
        exact absurd howner' howner

theorem on_removeOwned (h : Readable c) (owner : String) (keys : List Bytes) (removed : Nat) :
    ∃ n c', (removeOwned owner keys removed).on c = (.ok n, c') ∧ Purged owner c c' ∧
      ∀ id object, Bytes.ofText id ∈ keys → (load id).answer c = .ok (some object) →
        object.owner = owner → c'.value? space (Bytes.ofText id) = none := by
  induction keys generalizing removed c with
  | nil => exact ⟨removed, c, rfl, .refl c, fun _ _ hmem => by contradiction⟩
  | cons key rest ih =>
    obtain ⟨n, c', hvisit, hpurged, hgone⟩ := on_visit_of_readable h owner key
    obtain ⟨m, c'', hrest, hpurged', hgone'⟩ := ih (h.purged hpurged) (removed + n)
    refine ⟨m, c'', ?_, hpurged.trans hpurged', fun id object hmem hload howner => ?_⟩
    · rw [removeOwned_cons, on_bind_ok (atomic_visit owner key).steady hvisit, hrest]
    · rcases List.mem_cons.1 hmem with hkey | hmem
      · rw [hkey]
        exact hpurged'.value?_eq_none (hgone id object hkey.symm hload howner)
      · rcases hpurged.value?_eq space (Bytes.ofText id) with heq | ⟨hnone, -⟩
        · have hload' : (load id).answer c' = .ok (some object) :=
            (Backend.answer_getRecord_congr (hpurged.has_iff space) heq).trans hload
          exact hgone' id object hmem hload' howner
        · exact hpurged'.value?_eq_none hnone

/-- Nothing of an owner is left among the objects, and all else is as before. -/
structure Emptied (owner : String) (c c' : Contents) : Prop where
  purged : Purged owner c c'
  gone : ∀ id object, (load id).answer c = .ok (some object) → object.owner = owner →
    c'.value? space (Bytes.ofText id) = none

/-- Where every object can be read, bulk deletion succeeds and leaves no object of the owner, in
whatever order the keys are listed. -/
theorem on_deleteAllIn (h : Readable c) (listing : Listing Bytes) (owner : String) :
    ∃ n c', (deleteAllIn listing owner).on c = (.ok n, c') ∧ Emptied owner c c' := by
  obtain ⟨found, hfound⟩ := h ""
  obtain ⟨ks, hkeys, hmem⟩ := Backend.on_keys (Backend.has_of_answer_getRecord hfound)
  obtain ⟨n, c', hremove, hpurged, hgone⟩ := on_removeOwned h owner (listing.order ks) 0
  refine ⟨n, c', ?_, hpurged, fun id object hload => hgone id object ?_ hload⟩
  · rw [deleteAllIn, on_bind_ok (Backend.readOnly_keys space).steady hkeys, hremove]
  · obtain ⟨value, hvalue, -⟩ := Backend.answer_getRecord_eq_some_iff.1 hload
    exact (listing.perm ks).mem_iff.2 ((hmem _).2 ⟨value, hvalue⟩)

/-- There is one way to leave nothing of an owner. -/
theorem Emptied.unique (h : Emptied owner c c') (h' : Emptied owner c c'') : c' = c'' := by
  refine ext_value? (fun s => (h.purged.has_iff s).trans (h'.purged.has_iff s).symm) fun s k => ?_
  rcases h.purged.value?_eq s k with heq | ⟨hnone, rfl, id, object, rfl, hload, howner⟩
  · rcases h'.purged.value?_eq s k with heq' | ⟨hnone', rfl, id, object, rfl, hload, howner⟩
    · rw [heq, heq']
    · rw [h.gone id object hload howner, hnone']
  · rw [hnone, h'.gone id object hload howner]

/-! ### Changes in a backend with faults -/

section Faults

variable {P : String → Bytes → Prop} {b : Backend}

theorem differ_put (h : ∀ found, (load id).answer b.contents = .ok found →
      (∀ object, found = some object → object.owner = caller) → P space (Bytes.ofText id)) :
    Differ P b.contents ((put id payload caller).run b).2.contents := by
  refine (atomic_put id payload caller).differ ?_
  rw [on_put]
  rcases hload : (load id).answer b.contents with e | _ | object
  · exact .refl _
  · exact .write (h none hload fun _ hfound => by contradiction) _
  · simp only
    split
    · next howner => exact .write (h _ hload fun _ hfound => Option.some.inj hfound ▸ howner) _
    · exact .refl _

theorem differ_delete (h : ∀ object, (load id).answer b.contents = .ok (some object) →
      object.owner = caller → P space (Bytes.ofText id)) :
    Differ P b.contents ((delete id caller).run b).2.contents := by
  refine (atomic_delete id caller).differ ?_
  rw [on_delete]
  rcases hload : (load id).answer b.contents with e | _ | object
  · exact .refl _
  · exact .refl _
  · simp only
    split
    · next howner => exact .remove (h object hload howner)
    · exact .refl _

end Faults

end AuthVault.Objects
