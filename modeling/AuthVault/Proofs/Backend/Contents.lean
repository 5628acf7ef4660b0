import AuthVault.Backend
import AuthVault.Proofs.Dict

/-!
# Contents by namespace and key

Contents are looked at entry by entry: a namespace is there or not (`Has`), and has a value under a
key or not (`value?`). Contents with the same view are equal (`ext_value?`). A single entry is
stored by `write` and removed by `remove`, and `Differ P` says that two contents have the same
namespaces and differ in entries of `P` only. Of these, `Adds P` tells what has been added, and
`Without P` that nothing has been and exactly the entries of `P` are gone.
-/

namespace AuthVault.Contents

def Has (c : Contents) (space : String) : Prop := ∃ t, c.get? space = some t

/-- The value under a key of a namespace. -/
def value? (c : Contents) (space : String) (key : Bytes) : Option Bytes :=
  (c.get? space).bind fun t => t.get? key

/-- The contents with a value under a key of a namespace, if the namespace exists. -/
def write (c : Contents) (space : String) (key value : Bytes) : Contents :=
  match c.get? space with
  | some t => c.insert space (t.insert key value)
  | none => c

/-- The contents without the value under a key of a namespace. -/
def remove (c : Contents) (space : String) (key : Bytes) : Contents :=
  match c.get? space with
  | some t => c.insert space (t.erase key)
  | none => c

variable {c c' c'' : Contents} {space : String} {key : Bytes}

theorem value?_of_get? {t : Table} (h : c.get? space = some t) (key : Bytes) :
    c.value? space key = t.get? key := by
  rw [value?, h]
  rfl

theorem value?_of_not_has (h : ¬ c.Has space) (key : Bytes) : c.value? space key = none := by
  cases ht : c.get? space with
  | none => rw [value?, ht]; rfl
  | some t => exact absurd ⟨t, ht⟩ h

theorem has_of_value? {value : Bytes} (h : c.value? space key = some value) : c.Has space := by
  cases ht : c.get? space with
  | none => rw [value?, ht] at h; contradiction
  | some t => exact ⟨t, ht⟩

theorem ext_value? (hhas : ∀ s, c.Has s ↔ c'.Has s) (hvalue : ∀ s k, c.value? s k = c'.value? s k) :
    c = c' := by
  apply Dict.ext_get?
  intro s
  cases h : c.get? s with
  | none =>
    cases h' : c'.get? s with
    | none => rfl
    | some t' =>
      obtain ⟨t, ht⟩ := (hhas s).2 ⟨t', h'⟩
      rw [h] at ht
      contradiction
  | some t =>
    obtain ⟨t', h'⟩ := (hhas s).1 ⟨t, h⟩
    have htable : t = t' := Dict.ext_get? fun k => by
      rw [← value?_of_get? h k, ← value?_of_get? h' k, hvalue]
    rw [h', htable]

/-! ### Single entries -/

theorem has_insert (t : Table) (s : String) :
    Has (c.insert space t) s ↔ s = space ∨ c.Has s := by
  rw [Has, Dict.get?_insert]
  by_cases h : s = space
  · simp [h]
  · simp [h, Has]

theorem has_write (value : Bytes) (s : String) : (c.write space key value).Has s ↔ c.Has s := by
  unfold write
  cases h : c.get? space with
  | none => rfl
  | some t =>
    rw [has_insert]
    exact ⟨fun hs => hs.elim (fun e => e ▸ ⟨t, h⟩) id, .inr⟩

theorem has_remove (s : String) : (c.remove space key).Has s ↔ c.Has s := by
  unfold remove
  cases h : c.get? space with
  | none => rfl
  | some t =>
    rw [has_insert]
    exact ⟨fun hs => hs.elim (fun e => e ▸ ⟨t, h⟩) id, .inr⟩

theorem value?_write (h : c.Has space) (value : Bytes) (s : String) (k : Bytes) :
    (c.write space key value).value? s k
      = if s = space ∧ k = key then some value else c.value? s k := by
  obtain ⟨t, ht⟩ := h
  simp only [write, ht, value?, Dict.get?_insert]
  by_cases hs : s = space
  · subst hs
    by_cases hk : k = key
    · simp [hk]
    · simp [hk, ht, Dict.get?_insert]
  · simp [hs]

theorem value?_remove (s : String) (k : Bytes) :
    (c.remove space key).value? s k = if s = space ∧ k = key then none else c.value? s k := by
  unfold remove
  cases ht : c.get? space with
  | none =>
    by_cases hs : s = space ∧ k = key
    · rw [if_pos hs, hs.1, value?, ht]
      rfl
    · rw [if_neg hs]
  | some t =>
    simp only [value?, Dict.get?_insert]
    by_cases hs : s = space
    · subst hs
      by_cases hk : k = key
      · simp [hk]
      · simp [hk, ht, Dict.get?_erase]
    · simp [hs]

theorem value?_write_self (h : c.Has space) (value : Bytes) :
    (c.write space key value).value? space key = some value := by
  rw [value?_write h, if_pos ⟨rfl, rfl⟩]

theorem value?_write_of_ne {value : Bytes} {s : String} {k : Bytes} (h : ¬ (s = space ∧ k = key)) :
    (c.write space key value).value? s k = c.value? s k := by
  by_cases hhas : c.Has space
  · rw [value?_write hhas, if_neg h]
  · unfold write
    cases ht : c.get? space with
    | none => rfl
    | some t => exact absurd ⟨t, ht⟩ hhas

theorem get?_write_of_ne {value : Bytes} {s : String} (h : s ≠ space) :
    (c.write space key value).get? s = c.get? s := by
  unfold write
  cases c.get? space with
  | none => rfl
  | some t => exact Dict.get?_insert_of_ne _ _ h

/-- A new value under a key that has one leaves the keys as they are. -/
theorem keys_write {value old : Bytes} (h : c.value? space key = some old) :
    ((c.write space key value).get? space).map Dict.keys = (c.get? space).map Dict.keys := by
  obtain ⟨t, ht⟩ := has_of_value? h
  rw [value?_of_get? ht] at h
  rw [write, ht, Dict.get?_insert_self, Option.map_some, Option.map_some]
  refine congrArg some (Dict.keys_eq_of_mem_iff fun k => ?_)
  by_cases hk : k = key
  · rw [hk, Dict.get?_insert_self, h]
    exact ⟨fun _ => ⟨old, rfl⟩, fun _ => ⟨value, rfl⟩⟩
  · rw [Dict.get?_insert_of_ne _ _ hk]

theorem value?_remove_self : (c.remove space key).value? space key = none := by
  rw [value?_remove, if_pos ⟨rfl, rfl⟩]

theorem value?_remove_of_ne {s : String} {k : Bytes} (h : ¬ (s = space ∧ k = key)) :
    (c.remove space key).value? s k = c.value? s k := by
  rw [value?_remove, if_neg h]

theorem value?_of_remove {s : String} {k value : Bytes}
    (h : (c.remove space key).value? s k = some value) : c.value? s k = some value := by
  rw [value?_remove] at h
  split at h
  · contradiction
  · exact h

theorem remove_write {value : Bytes} :
    (c.write space key value).remove space key = c.remove space key := by
  refine ext_value? (fun s => ?_) fun s k => ?_
  · rw [has_remove, has_remove, has_write]
  · by_cases h : s = space ∧ k = key
    · rw [value?_remove, value?_remove, if_pos h, if_pos h]
    · rw [value?_remove_of_ne h, value?_remove_of_ne h, value?_write_of_ne h]

theorem remove_of_value?_eq_none (h : c.value? space key = none) : c.remove space key = c := by
  refine ext_value? (fun s => has_remove s) fun s k => ?_
  by_cases hs : s = space ∧ k = key
  · rw [hs.1, hs.2, value?_remove_self, h]
  · exact value?_remove_of_ne hs

/-! ### Entries that differ -/

/-- The namespaces are the same, and all entries that differ are of a kind. -/
structure Differ (P : String → Bytes → Prop) (c c' : Contents) : Prop where
  has_iff : ∀ s, c'.Has s ↔ c.Has s
  of_ne : ∀ s k, c'.value? s k ≠ c.value? s k → P s k

namespace Differ

variable {P Q : String → Bytes → Prop}

theorem refl (c : Contents) : Differ P c c := ⟨fun _ => .rfl, fun _ _ h => absurd rfl h⟩

theorem trans (h : Differ P c c') (h' : Differ P c' c'') : Differ P c c'' := by
  refine ⟨fun s => (h'.has_iff s).trans (h.has_iff s), fun s k hne => ?_⟩
  by_cases heq : c'.value? s k = c.value? s k
  · exact h'.of_ne s k (heq ▸ hne)
  · exact h.of_ne s k heq

theorem mono (h : Differ P c c') (hPQ : ∀ s k, P s k → Q s k) : Differ Q c c' :=
  ⟨h.has_iff, fun s k hne => hPQ s k (h.of_ne s k hne)⟩

theorem write (h : P space key) (value : Bytes) : Differ P c (c.write space key value) := by
  refine ⟨fun s => has_write value s, fun s k hne => ?_⟩
  by_cases hs : s = space ∧ k = key
  · rw [hs.1, hs.2]
    exact h
  · exact absurd (value?_write_of_ne hs) hne

theorem remove (h : P space key) : Differ P c (c.remove space key) := by
  refine ⟨fun s => has_remove s, fun s k hne => ?_⟩
  by_cases hs : s = space ∧ k = key
  · rw [hs.1, hs.2]
    exact h
  · exact absurd (value?_remove_of_ne hs) hne

theorem value?_eq (h : Differ P c c') {s : String} {k : Bytes} (hP : ¬ P s k) :
    c'.value? s k = c.value? s k := by
  by_cases heq : c'.value? s k = c.value? s k
  · exact heq
  · exact absurd (h.of_ne s k heq) hP

end Differ

/-! ### Entries that are added, and entries that are left out -/

/-- The namespaces are the same, and all entries that were not there before are of a kind. -/
structure Adds (P : String → Bytes → Bytes → Prop) (c c' : Contents) : Prop where
  has_iff : ∀ s, c'.Has s ↔ c.Has s
  of_value? : ∀ s k v, c'.value? s k = some v → c.value? s k = some v ∨ P s k v

namespace Adds

variable {P : String → Bytes → Bytes → Prop}

theorem refl (c : Contents) : Adds P c c := ⟨fun _ => .rfl, fun _ _ _ => .inl⟩

theorem trans (h : Adds P c c') (h' : Adds P c' c'') : Adds P c c'' :=
  ⟨fun s => (h'.has_iff s).trans (h.has_iff s),
    fun s k v hv => (h'.of_value? s k v hv).elim (h.of_value? s k v) .inr⟩

theorem write {value : Bytes} (h : P space key value) : Adds P c (c.write space key value) := by
  refine ⟨fun s => has_write value s, fun s k v hv => ?_⟩
  by_cases hs : s = space ∧ k = key
  · obtain ⟨rfl, rfl⟩ := hs
    rw [value?_write_self ((has_write _ _).1 (has_of_value? hv))] at hv
    exact .inr (Option.some.inj hv ▸ h)
  · exact .inl (value?_write_of_ne hs ▸ hv)

theorem remove : Adds P c (c.remove space key) :=
  ⟨fun s => has_remove s, fun _ _ _ hv => .inl (value?_of_remove hv)⟩

end Adds

/-- The entries of a kind are gone, and all else is as before. -/
structure Without (P : String → Bytes → Prop) (c c' : Contents) : Prop where
  has_iff : ∀ s, c'.Has s ↔ c.Has s
  gone : ∀ s k, P s k → c'.value? s k = none
  kept : ∀ s k, ¬ P s k → c'.value? s k = c.value? s k

end AuthVault.Contents
