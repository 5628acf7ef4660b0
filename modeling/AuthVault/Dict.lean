/-!
# Sorted dictionaries

A dictionary keeps its entries in ascending order of their keys, each key once. The view is `get?`:
every operation says what it does to it (`get?_insert`, `get?_erase`), and dictionaries with the
same view are equal (`ext_get?`).
-/

namespace AuthVault

/-- Entries in strictly ascending order of their keys. -/
structure Dict (κ β : Type) [LT κ] where
  entries : List (κ × β)
  sorted : entries.Pairwise fun a b => a.1 < b.1

namespace Dict

variable {κ β : Type}

/-! ### Look-up in a list of entries -/

section Entries

variable [DecidableEq κ] {k : κ} {x : β} {l : List (κ × β)}

theorem lookup_cons [BEq κ] [LawfulBEq κ] (k m : κ) (x : β) (l : List (κ × β)) :
    List.lookup k ((m, x) :: l) = if k = m then some x else l.lookup k := by
  by_cases hk : k = m
  · rw [List.lookup_cons, beq_iff_eq.2 hk, if_pos hk]
  · rw [List.lookup_cons, beq_eq_false_iff_ne.2 hk, if_neg hk]

theorem lookup_filter_ne (k m : κ) (l : List (κ × β)) :
    (l.filter fun e => e.1 ≠ k).lookup m = if m = k then none else l.lookup m := by
  induction l with
  | nil => simp
  | cons e l ih =>
    obtain ⟨j, x⟩ := e
    by_cases hj : j = k
    · rw [List.filter_cons_of_neg (by simp [hj]), ih, lookup_cons, hj]
      by_cases hm : m = k
      · simp [hm]
      · simp [hm]
    · rw [List.filter_cons_of_pos (by simp [hj]), lookup_cons, lookup_cons, ih]
      by_cases hm : m = k
      · simp [hm, Ne.symm hj]
      · simp [hm]

/-- Where the keys are distinct, every entry is found. -/
theorem lookup_eq_some_iff (h : (l.map (·.1)).Nodup) : l.lookup k = some x ↔ (k, x) ∈ l := by
  constructor
  · intro hfound
    obtain ⟨before, after, rfl, -⟩ := List.lookup_eq_some_iff.1 hfound
    exact List.mem_append_right _ List.mem_cons_self
  · intro hmem
    obtain ⟨before, after, rfl⟩ := List.append_of_mem hmem
    refine List.lookup_eq_some_iff.2 ⟨before, after, rfl, fun e he => ?_⟩
    rw [List.map_append, List.map_cons] at h
    have hne := (List.nodup_append.1 h).2.2 e.1 (List.mem_map_of_mem he) k List.mem_cons_self
    exact bne_iff_ne.2 (Ne.symm hne)

end Entries

/-! ### Operations -/

variable [LT κ]

def empty : Dict κ β := ⟨[], .nil⟩

instance : Inhabited (Dict κ β) := ⟨empty⟩

def keys (d : Dict κ β) : List κ := d.entries.map (·.1)

def size (d : Dict κ β) : Nat := d.entries.length

theorem eq_of_entries {d e : Dict κ β} (h : d.entries = e.entries) : d = e := by
  cases d; cases e; simp_all

section Lookup

variable [DecidableEq κ]

def get? (d : Dict κ β) (k : κ) : Option β := d.entries.lookup k

def contains (d : Dict κ β) (k : κ) : Bool := (d.get? k).isSome

def erase (d : Dict κ β) (k : κ) : Dict κ β :=
  ⟨d.entries.filter fun e => e.1 ≠ k, d.sorted.sublist List.filter_sublist⟩

theorem get?_erase (d : Dict κ β) (k m : κ) :
    (d.erase k).get? m = if m = k then none else d.get? m :=
  lookup_filter_ne k m d.entries

@[simp] theorem get?_erase_self (d : Dict κ β) (k : κ) : (d.erase k).get? k = none := by
  simp [get?_erase]

end Lookup

section Insertion

variable [DecidableEq κ] [DecidableLT κ]

/-- Entries with one more, which replaces an entry of its key. -/
def insertEntry (k : κ) (x : β) : List (κ × β) → List (κ × β)
  | [] => [(k, x)]
  | (m, y) :: rest =>
    if k < m then (k, x) :: (m, y) :: rest
    else if k = m then (k, x) :: rest
    else (m, y) :: insertEntry k x rest

theorem mem_insertEntry {k : κ} {x : β} {e : κ × β} {l : List (κ × β)}
    (h : e ∈ insertEntry k x l) : e = (k, x) ∨ e ∈ l := by
  induction l with
  | nil => simp_all [insertEntry]
  | cons f l ih =>
    obtain ⟨m, y⟩ := f
    unfold insertEntry at h
    split at h
    · simpa using h
    · split at h
      · rcases List.mem_cons.1 h with h | h
        · exact .inl h
        · exact .inr (List.mem_cons_of_mem _ h)
      · rcases List.mem_cons.1 h with h | h
        · exact .inr (by simp [h])
        · rcases ih h with h | h
          · exact .inl h
          · exact .inr (List.mem_cons_of_mem _ h)

theorem lookup_insertEntry (k m : κ) (x : β) (l : List (κ × β)) :
    (insertEntry k x l).lookup m = if m = k then some x else l.lookup m := by
  induction l with
  | nil => rw [insertEntry, lookup_cons]
  | cons e l ih =>
    obtain ⟨j, y⟩ := e
    unfold insertEntry
    split
    · rw [lookup_cons]
    · split
      · next hk =>
        subst hk
        rw [lookup_cons, lookup_cons]
        by_cases hm : m = k
        · simp [hm]
        · simp [hm]
      · next hk =>
        rw [lookup_cons, lookup_cons, ih]
        by_cases hm : m = k
        · simp [hm, hk]
        · simp [hm]

variable [Trans (· < · : κ → κ → Prop) (· < · : κ → κ → Prop) (· < · : κ → κ → Prop)]
  [Std.Trichotomous (· < · : κ → κ → Prop)]

theorem sorted_insertEntry (k : κ) (x : β) {l : List (κ × β)}
    (h : l.Pairwise fun a b => a.1 < b.1) : (insertEntry k x l).Pairwise fun a b => a.1 < b.1 := by
  induction l with
  | nil => simp [insertEntry]
  | cons e l ih =>
    obtain ⟨m, y⟩ := e
    have hl := List.pairwise_cons.1 h
    unfold insertEntry
    split
    · next hk =>
      refine List.pairwise_cons.2 ⟨fun e he => ?_, h⟩
      rcases List.mem_cons.1 he with rfl | he
      · exact hk
      · exact Trans.trans hk (hl.1 e he)
    · next hk =>
      split
      · next hm => subst hm; exact List.pairwise_cons.2 ⟨hl.1, hl.2⟩
      · next hm =>
        refine List.pairwise_cons.2 ⟨fun e he => ?_, ih hl.2⟩
        rcases mem_insertEntry he with rfl | he
        · rcases Std.lt_trichotomy k m with h | h | h
          · exact absurd h hk
          · exact absurd h hm
          · exact h
        · exact hl.1 e he

/-- The dictionary with an entry, which replaces one of its key. -/
def insert (d : Dict κ β) (k : κ) (x : β) : Dict κ β :=
  ⟨insertEntry k x d.entries, sorted_insertEntry k x d.sorted⟩

/-- The dictionary of the given entries; the last of a key counts. -/
def ofList (l : List (κ × β)) : Dict κ β := l.foldl (fun d e => d.insert e.1 e.2) empty

theorem get?_insert (d : Dict κ β) (k m : κ) (x : β) :
    (d.insert k x).get? m = if m = k then some x else d.get? m :=
  lookup_insertEntry k m x d.entries

@[simp] theorem get?_insert_self (d : Dict κ β) (k : κ) (x : β) : (d.insert k x).get? k = some x := by
  simp [get?_insert]

theorem get?_insert_of_ne (d : Dict κ β) {k m : κ} (x : β) (h : m ≠ k) :
    (d.insert k x).get? m = d.get? m := by
  simp [get?_insert, h]

end Insertion

section Extensionality

variable [Std.Irrefl (· < · : κ → κ → Prop)]

theorem nodup_keys (d : Dict κ β) : d.keys.Nodup := by
  rw [keys, List.Nodup, List.pairwise_map]
  refine d.sorted.imp ?_
  intro a b hlt heq
  exact Std.Irrefl.irrefl b.1 (heq ▸ hlt)

variable [DecidableEq κ]

theorem mem_entries_iff {d : Dict κ β} {e : κ × β} : e ∈ d.entries ↔ d.get? e.1 = some e.2 :=
  (lookup_eq_some_iff d.nodup_keys).symm

/-- Dictionaries with the same view are equal. -/
theorem ext_get? [Trans (· < · : κ → κ → Prop) (· < · : κ → κ → Prop) (· < · : κ → κ → Prop)]
    {d e : Dict κ β} (h : ∀ k, d.get? k = e.get? k) : d = e := by
  have hnodup : ∀ d : Dict κ β, d.entries.Nodup := fun d =>
    (List.pairwise_map.1 d.nodup_keys).imp fun hne heq => hne (congrArg Prod.fst heq)
  have hperm : d.entries.Perm e.entries :=
    (List.perm_ext_iff_of_nodup (hnodup d) (hnodup e)).2 fun entry => by
      rw [mem_entries_iff, mem_entries_iff, h]
  refine eq_of_entries (hperm.eq_of_pairwise (fun a b _ _ hab hba => ?_) d.sorted e.sorted)
  exact absurd (Trans.trans hab hba) (Std.Irrefl.irrefl a.1)

end Extensionality

end Dict

end AuthVault
