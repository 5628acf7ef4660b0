import AuthVault.Proofs.Backend.Action
import AuthVault.Proofs.Dict
import AuthVault.Proofs.Record

/-!
# Primitive calls and stored records

Where no fault is armed, each primitive call reads or changes the entries that it names, and fails
only for want of its namespace. A record is found under a key exactly if the namespace has a value
there that is not empty and decodes (`answer_getRecord_eq_some_iff`); what is found depends on that
entry alone (`answer_getRecord_congr`), and a record that has been stored is the one found
(`answer_getRecord_write`).
-/

namespace AuthVault.Backend

open Contents AuthVault.Action

/-! ### Primitive calls -/

section Calls

variable {c : Contents} {space : String}

theorem atomic_put (space : String) (key value : Bytes) : (put space key value).Atomic :=
  atomic_perform _ _ _

theorem atomic_delete (space : String) (key : Bytes) : (delete space key).Atomic :=
  atomic_perform _ _ _

theorem ignores_put {faults : List Fault} (h : ∀ f ∈ faults, ¬ (f.call = .put ∧ f.space = space))
    (key value : Bytes) : (put space key value).Ignores faults :=
  ignores_perform h _

theorem ignores_delete {faults : List Fault}
    (h : ∀ f ∈ faults, ¬ (f.call = .delete ∧ f.space = space)) (key : Bytes) :
    (delete space key).Ignores faults :=
  ignores_perform h _

theorem on_createNamespace (space : String) (c : Contents) :
    (createNamespace space).on c
      = (.ok (), if c.contains space then c else c.insert space .empty) :=
  rfl

theorem steady_createAll (spaces : List String) : (createAll spaces).Steady := by
  induction spaces with
  | nil => exact (readOnly_pure ()).steady
  | cons space rest ih => exact (atomic_perform .create space _).steady.bind fun _ => ih

theorem contains_iff : c.contains space = true ↔ c.Has space := by
  rw [Dict.contains, Option.isSome_iff_exists]
  rfl

theorem has_createNamespace (space : String) (c : Contents) (s : String) :
    ((createNamespace space).on c).2.Has s ↔ c.Has s ∨ s = space := by
  rw [on_createNamespace]
  split
  · next hspace =>
    rw [contains_iff] at hspace
    exact ⟨.inl, fun h => h.elim id fun hs => hs ▸ hspace⟩
  · rw [has_insert, or_comm]

/-- A namespace is created without entries. -/
theorem value?_createNamespace (space : String) (c : Contents) (s : String) (k : Bytes) :
    ((createNamespace space).on c).2.value? s k = c.value? s k := by
  rw [on_createNamespace]
  split
  · rfl
  · next hspace =>
    rw [contains_iff] at hspace
    rw [value?, Dict.get?_insert]
    split
    · next hs => rw [hs, value?_of_not_has hspace]; rfl
    · rfl

/-- Creating namespaces adds those that there were not, without entries. -/
theorem on_createAll (spaces : List String) (c : Contents) :
    ∃ c', (createAll spaces).on c = (.ok (), c') ∧ (∀ s, c'.Has s ↔ c.Has s ∨ s ∈ spaces) ∧
      ∀ s k, c'.value? s k = c.value? s k := by
  induction spaces generalizing c with
  | nil => exact ⟨c, rfl, fun s => by simp, fun _ _ => rfl⟩
  | cons space rest ih =>
    obtain ⟨c', hrest, hhas, hvalue⟩ := ih ((createNamespace space).on c).2
    have hcreate : (createAll (space :: rest)).on c
        = (createAll rest).on ((createNamespace space).on c).2 :=
      on_bind_ok (atomic_perform .create space _).steady (on_createNamespace space c)
    refine ⟨c', hcreate.trans hrest, fun s => ?_, fun s k => ?_⟩
    · rw [hhas, List.mem_cons, ← or_assoc]
      exact or_congr_left (has_createNamespace space c s)
    · exact (hvalue s k).trans (value?_createNamespace space c s k)

theorem on_get (h : c.Has space) (key : Bytes) :
    (get space key).on c = (.ok (c.value? space key), c) := by
  obtain ⟨t, ht⟩ := h
  simp only [on, run, get, perform, trip, table, ht, value?]
  rfl

theorem on_get_of_not_has (h : ¬ c.Has space) (key : Bytes) :
    (get space key).on c = (.error (.backend (.namespaceNotFound space)), c) := by
  cases ht : c.get? space with
  | some t => exact absurd ⟨t, ht⟩ h
  | none =>
    simp only [on, run, get, perform, trip, table, ht]
    rfl

theorem readOnly_get (space : String) (key : Bytes) : (get space key).ReadOnly := by
  refine ⟨atomic_perform _ _ _, fun c => ?_⟩
  by_cases h : c.Has space
  · rw [on_get h]
  · rw [on_get_of_not_has h]

theorem on_put (h : c.Has space) (key value : Bytes) :
    (put space key value).on c = (.ok (), c.write space key value) := by
  obtain ⟨t, ht⟩ := h
  simp only [on, run, put, perform, trip, table, ht, write]
  rfl

theorem on_put_of_not_has (h : ¬ c.Has space) (key value : Bytes) :
    (put space key value).on c = (.error (.backend (.namespaceNotFound space)), c) := by
  cases ht : c.get? space with
  | some t => exact absurd ⟨t, ht⟩ h
  | none =>
    simp only [on, run, put, perform, trip, table, ht]
    rfl

theorem on_delete (h : c.Has space) (key : Bytes) :
    (delete space key).on c = (.ok (), c.remove space key) := by
  obtain ⟨t, ht⟩ := h
  simp only [on, run, delete, perform, trip, table, ht, remove]
  rfl

theorem on_delete_of_not_has (h : ¬ c.Has space) (key : Bytes) :
    (delete space key).on c = (.error (.backend (.namespaceNotFound space)), c) := by
  cases ht : c.get? space with
  | some t => exact absurd ⟨t, ht⟩ h
  | none =>
    simp only [on, run, delete, perform, trip, table, ht]
    rfl

/-- Where its namespace exists, a removal fails only for a fault. -/
theorem struck_delete {b : Backend} {key : Bytes} {e : AuthError} (h : b.contents.Has space)
    (herror : ((delete space key).run b).1 = .error e) : (delete space key).Struck b :=
  (atomic_delete space key).struck_of_error (congrArg Prod.fst (on_delete h key)) herror

theorem delete_of_ok {b : Backend} {key : Bytes} (hok : ((delete space key).run b).1 = .ok ()) :
    ((delete space key).run b).2.contents = b.contents.remove space key := by
  have hon := (atomic_delete space key).on_of_ok hok
  by_cases hhas : b.contents.Has space
  · rw [on_delete hhas] at hon
    exact (congrArg Prod.snd hon).symm
  · rw [on_delete_of_not_has hhas] at hon
    cases congrArg Prod.fst hon

theorem differ_put {P : String → Bytes → Prop} {key : Bytes} (h : P space key) (value : Bytes)
    (b : Backend) : Differ P b.contents ((put space key value).run b).2.contents := by
  refine (atomic_put space key value).differ ?_
  by_cases hhas : b.contents.Has space
  · rw [on_put hhas]
    exact .write h value
  · rw [on_put_of_not_has hhas]
    exact .refl _

theorem differ_delete {P : String → Bytes → Prop} {key : Bytes} (h : P space key) (b : Backend) :
    Differ P b.contents ((delete space key).run b).2.contents := by
  refine (atomic_delete space key).differ ?_
  by_cases hhas : b.contents.Has space
  · rw [on_delete hhas]
    exact .remove h
  · rw [on_delete_of_not_has hhas]
    exact .refl _

theorem on_keys_of_get? {t : Table} (h : c.get? space = some t) :
    (keys space).on c = (.ok t.keys, c) := by
  simp only [on, run, keys, perform, trip, table, h]
  rfl

theorem on_keys (h : c.Has space) : ∃ ks, (keys space).on c = (.ok ks, c) ∧
    ∀ key, key ∈ ks ↔ ∃ value, c.value? space key = some value := by
  obtain ⟨t, ht⟩ := h
  refine ⟨t.keys, on_keys_of_get? ht, fun key => ?_⟩
  rw [Dict.mem_keys_iff, value?_of_get? ht]

theorem on_keys_of_not_has (h : ¬ c.Has space) :
    (keys space).on c = (.error (.backend (.namespaceNotFound space)), c) := by
  cases ht : c.get? space with
  | some t => exact absurd ⟨t, ht⟩ h
  | none =>
    simp only [on, run, keys, perform, trip, table, ht]
    rfl

theorem readOnly_keys (space : String) : (keys space).ReadOnly := by
  refine ⟨atomic_perform _ _ _, fun c => ?_⟩
  by_cases h : c.Has space
  · obtain ⟨ks, hks, -⟩ := on_keys h
    rw [hks]
  · rw [on_keys_of_not_has h]

end Calls

/-! ### Records -/

section Records

variable {α : Type} [Record α] {c c' : Contents} {space key : String} {x : α}

theorem readOnly_recordOf (stored : Option Bytes) :
    (recordOf stored : Action (Option α)).ReadOnly := by
  unfold recordOf
  split
  · exact readOnly_pure _
  · exact readOnly_pure _
  · split
    · exact readOnly_pure _
    · exact readOnly_throw _

theorem on_recordOf_value {value : Bytes} (hne : value ≠ []) (c : Contents) :
    (recordOf (some value) : Action (Option α)).on c
      = ((match Record.decode value with
          | .ok x => .ok (some x)
          | .error e => .error (.codec e)), c) := by
  cases value with
  | nil => contradiction
  | cons b value =>
    show (match Record.decode (b :: value) with
      | .ok x => pure (some x)
      | .error e => throw (.codec e) : Action (Option α)).on c = _
    cases (Record.decode (b :: value) : Except DecodeError α) <;> rfl

theorem readOnly_getRecord (space key : String) :
    (getRecord space key : Action (Option α)).ReadOnly :=
  (readOnly_get _ _).bind readOnly_recordOf

theorem ignores_getRecord {faults : List Fault}
    (h : ∀ f ∈ faults, ¬ (f.call = .get ∧ f.space = space)) (key : String) :
    (getRecord space key : Action (Option α)).Ignores faults := by
  apply (ignores_perform h _).bind (readOnly_get _ _).steady
  intro stored
  unfold recordOf
  split
  · exact ignores_pure _ faults
  · exact ignores_pure _ faults
  · split
    · exact ignores_pure _ faults
    · exact ignores_throw _ faults

theorem internal_getRecord (space key : String) :
    (getRecord space key : Action (Option α)).Internal := by
  apply (internal_perform _ _ _).bind
  intro stored b e herror
  unfold recordOf at herror
  split at herror
  · contradiction
  · contradiction
  · split at herror
    · contradiction
    · rw [← Except.error.inj herror]
      rfl

theorem on_getRecord (h : c.Has space) (key : String) :
    (getRecord space key : Action (Option α)).on c
      = (recordOf (c.value? space (Bytes.ofText key))).on c :=
  on_bind_ok (readOnly_get _ _).steady (on_get h _)

theorem answer_getRecord_of_not_has (h : ¬ c.Has space) :
    (getRecord space key : Action (Option α)).answer c
      = .error (.backend (.namespaceNotFound space)) := by
  rw [answer, getRecord, on_bind_error (readOnly_get _ _).steady (on_get_of_not_has h _)]

theorem answer_getRecord_eq_some_iff :
    (getRecord space key).answer c = .ok (some x) ↔ ∃ value,
      c.value? space (Bytes.ofText key) = some value ∧ value ≠ [] ∧
        Record.decode value = .ok x := by
  by_cases hhas : c.Has space
  · rw [answer, on_getRecord hhas]
    cases hvalue : c.value? space (Bytes.ofText key) with
    | none =>
      constructor
      · intro h
        cases Except.ok.inj h
      · rintro ⟨value, h, -⟩
        contradiction
    | some value =>
      by_cases hne : value = []
      · subst hne
        constructor
        · intro h
          cases Except.ok.inj h
        · rintro ⟨value, h, hne, -⟩
          exact absurd (Option.some.inj h).symm hne
      · rw [on_recordOf_value hne]
        cases hdecode : (Record.decode value : Except DecodeError α) with
        | error e =>
          constructor
          · intro h
            contradiction
          · rintro ⟨v, h, -, hd⟩
            rw [← Option.some.inj h, hdecode] at hd
            contradiction
        | ok y =>
          constructor
          · intro h
            refine ⟨value, rfl, hne, ?_⟩
            rw [hdecode, Option.some.inj (Except.ok.inj h)]
          · rintro ⟨v, h, -, hd⟩
            rw [← Option.some.inj h, hdecode] at hd
            rw [Except.ok.inj hd]
  · rw [answer_getRecord_of_not_has hhas]
    constructor
    · intro h
      contradiction
    · rintro ⟨value, h, -⟩
      rw [value?_of_not_has hhas] at h
      contradiction

theorem answer_getRecord_eq_none_iff :
    (getRecord space key : Action (Option α)).answer c = .ok none ↔ c.Has space ∧
      (c.value? space (Bytes.ofText key) = none ∨ c.value? space (Bytes.ofText key) = some []) := by
  by_cases hhas : c.Has space
  · rw [answer, on_getRecord hhas]
    cases hvalue : c.value? space (Bytes.ofText key) with
    | none => exact ⟨fun _ => ⟨hhas, .inl rfl⟩, fun _ => rfl⟩
    | some value =>
      by_cases hne : value = []
      · subst hne
        exact ⟨fun _ => ⟨hhas, .inr rfl⟩, fun _ => rfl⟩
      · rw [on_recordOf_value hne]
        constructor
        · intro h
          cases hdecode : (Record.decode value : Except DecodeError α) with
          | error e =>
            rw [hdecode] at h
            contradiction
          | ok y =>
            rw [hdecode] at h
            cases Except.ok.inj h
        · rintro ⟨-, h | h⟩
          · contradiction
          · exact absurd (Option.some.inj h) hne
  · rw [answer_getRecord_of_not_has hhas]
    constructor
    · intro h
      contradiction
    · rintro ⟨h, -⟩
      exact absurd h hhas

/-- A look-up succeeds wherever there is a record or nothing. -/
theorem exists_answer_getRecord (hhas : c.Has space)
    (hvalue : ∀ value, c.value? space (Bytes.ofText key) = some value →
      ∃ x : α, value ≠ [] ∧ Record.decode value = .ok x) :
    ∃ found, (getRecord space key : Action (Option α)).answer c = .ok found := by
  cases hv : c.value? space (Bytes.ofText key) with
  | none => exact ⟨none, answer_getRecord_eq_none_iff.2 ⟨hhas, .inl hv⟩⟩
  | some value =>
    obtain ⟨x, hne, hdecode⟩ := hvalue value hv
    exact ⟨some x, answer_getRecord_eq_some_iff.2 ⟨value, hv, hne, hdecode⟩⟩

theorem answer_getRecord_of_decode_error {value : Bytes} {e : DecodeError}
    (hvalue : c.value? space (Bytes.ofText key) = some value) (hne : value ≠ [])
    (hdecode : (Record.decode value : Except DecodeError α) = .error e) :
    (getRecord space key : Action (Option α)).answer c = .error (.codec e) := by
  rw [answer, on_getRecord (has_of_value? hvalue), hvalue, on_recordOf_value hne, hdecode]

/-- What is found under a key depends on the namespace and the entry only. -/
theorem answer_getRecord_congr (hhas : c'.Has space ↔ c.Has space)
    (hvalue : c'.value? space (Bytes.ofText key) = c.value? space (Bytes.ofText key)) :
    (getRecord space key : Action (Option α)).answer c' = (getRecord space key).answer c := by
  by_cases h : c.Has space
  · rw [answer, answer, on_getRecord h, on_getRecord (hhas.2 h), hvalue]
    cases hstored : c.value? space (Bytes.ofText key) with
    | none => rfl
    | some value =>
      by_cases hne : value = []
      · subst hne; rfl
      · rw [on_recordOf_value hne, on_recordOf_value hne]
  · rw [answer_getRecord_of_not_has h, answer_getRecord_of_not_has (mt hhas.1 h)]

/-- What is found under a key stays the same where the entry is not one of those that differ. -/
theorem answer_getRecord_of_differ {P : String → Bytes → Prop} (h : Differ P c c')
    (hP : ¬ P space (Bytes.ofText key)) :
    (getRecord space key : Action (Option α)).answer c' = (getRecord space key).answer c :=
  answer_getRecord_congr (h.has_iff space) (h.value?_eq hP)

/-- A write to another entry is not seen. -/
theorem answer_getRecord_write_of_ne {space' : String} {k value : Bytes}
    (h : ¬ (space = space' ∧ Bytes.ofText key = k)) :
    (getRecord space key : Action (Option α)).answer (c.write space' k value)
      = (getRecord space key).answer c :=
  answer_getRecord_congr (has_write _ _) (value?_write_of_ne h)

theorem answer_getRecord_write_of_space_ne {space' : String} {k value : Bytes}
    (h : space ≠ space') : (getRecord space key : Action (Option α)).answer (c.write space' k value)
      = (getRecord space key).answer c :=
  answer_getRecord_write_of_ne fun hentry => h hentry.1

theorem answer_getRecord_write_of_key_ne {space' key' : String} {value : Bytes} (h : key ≠ key') :
    (getRecord space key : Action (Option α)).answer (c.write space' (Bytes.ofText key') value)
      = (getRecord space key).answer c :=
  answer_getRecord_write_of_ne fun hentry => h (Bytes.ofText_inj.1 hentry.2)

theorem answer_getRecord_remove_of_ne {space' : String} {k : Bytes}
    (h : ¬ (space = space' ∧ Bytes.ofText key = k)) :
    (getRecord space key : Action (Option α)).answer (c.remove space' k)
      = (getRecord space key).answer c :=
  answer_getRecord_congr (has_remove _) (value?_remove_of_ne h)

theorem answer_getRecord_of_write (h : c.Has space)
    (hdecode : Record.decode (Record.encode x) = .ok x) (hne : (Record.encode x : Bytes) ≠ []) :
    (getRecord space key).answer (c.write space (Bytes.ofText key) (Record.encode x))
      = .ok (some x) :=
  answer_getRecord_eq_some_iff.2 ⟨_, value?_write_self h _, hne, hdecode⟩

/-- A record that is in its place is found. -/
theorem answer_getRecord_of_value? [LawfulRecord α]
    (hvalue : c.value? space (Bytes.ofText key) = some (Record.encode x)) :
    (getRecord space key).answer c = .ok (some x) :=
  answer_getRecord_eq_some_iff.2
    ⟨_, hvalue, LawfulRecord.encode_ne_nil x, LawfulRecord.decode_encode x⟩

theorem answer_getRecord_write [LawfulRecord α] (h : c.Has space) (x : α) :
    (getRecord space key).answer (c.write space (Bytes.ofText key) (Record.encode x))
      = .ok (some x) :=
  answer_getRecord_of_value? (value?_write_self h _)

theorem answer_getRecord_remove (h : c.Has space) :
    (getRecord space key : Action (Option α)).answer (c.remove space (Bytes.ofText key))
      = .ok none :=
  answer_getRecord_eq_none_iff.2 ⟨(has_remove space).2 h, .inl value?_remove_self⟩

/-- A namespace in which a read has succeeded exists. -/
theorem has_of_answer_getRecord {found : Option α}
    (h : (getRecord space key).answer c = .ok found) : c.Has space := by
  by_cases hhas : c.Has space
  · exact hhas
  · rw [answer_getRecord_of_not_has hhas] at h
    contradiction

end Records

end AuthVault.Backend
