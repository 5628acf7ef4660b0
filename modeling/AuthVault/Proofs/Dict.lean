import AuthVault.Dict

/-!
# Dictionaries made of lists

Where the keys of a list of entries are distinct, looking one up does not depend on the order
(`lookup_of_perm`). So a dictionary is made anew from its entries in any order (`ofList_of_perm`), and
looking up in a part of it is looking up in all of it first (`get?_filter`), which also tells the
size of the part (`size_filter`).
-/

namespace AuthVault.Dict

variable {κ β : Type} [DecidableEq κ] {k : κ} {x : β} {l r : List (κ × β)}

/-! ### Distinct keys -/

theorem lookup_of_perm (hperm : l.Perm r) (h : (r.map (·.1)).Nodup) (k : κ) :
    l.lookup k = r.lookup k := by
  have hl : (l.map (·.1)).Nodup := (hperm.map _).nodup_iff.2 h
  apply Option.ext
  intro x
  rw [lookup_eq_some_iff hl, lookup_eq_some_iff h, hperm.mem_iff]

theorem lookup_isSome_iff : (l.lookup k).isSome ↔ k ∈ l.map (·.1) := by
  rw [List.lookup_isSome_iff, List.mem_map]
  refine exists_congr fun e => and_congr_right fun _ => ?_
  rw [beq_iff_eq, eq_comm]

theorem lookup_map {γ : Type} (g : β → γ) (k : κ) (l : List (κ × β)) :
    (l.map fun e => (e.1, g e.2)).lookup k = (l.lookup k).map g := by
  induction l with
  | nil => rfl
  | cons e l ih =>
    obtain ⟨m, y⟩ := e
    rw [List.map_cons, lookup_cons, lookup_cons]
    by_cases hm : k = m
    · rw [if_pos hm, if_pos hm, Option.map_some]
    · rw [if_neg hm, if_neg hm, ih]

variable [LT κ]

theorem mem_keys_iff {d : Dict κ β} : k ∈ d.keys ↔ ∃ x, d.get? k = some x := by
  rw [keys, ← lookup_isSome_iff, Option.isSome_iff_exists]
  rfl

/-- The keys are told by which of them have a value. -/
theorem keys_eq_of_mem_iff [Std.Irrefl (· < · : κ → κ → Prop)]
    [Trans (· < · : κ → κ → Prop) (· < · : κ → κ → Prop) (· < · : κ → κ → Prop)] {d e : Dict κ β}
    (h : ∀ k, (∃ x, d.get? k = some x) ↔ ∃ x, e.get? k = some x) : d.keys = e.keys := by
  have hperm : d.keys.Perm e.keys :=
    (List.perm_ext_iff_of_nodup d.nodup_keys e.nodup_keys).2 fun k => by
      rw [mem_keys_iff, mem_keys_iff, h]
  have hsorted : ∀ d : Dict κ β, d.keys.Pairwise (· < ·) := fun d => List.pairwise_map.2 d.sorted
  refine hperm.eq_of_pairwise (fun a b _ _ hab hba => ?_) (hsorted d) (hsorted e)
  exact absurd (Trans.trans hab hba) (Std.Irrefl.irrefl a)

/-! ### Dictionaries of lists -/

section OfList

variable [DecidableLT κ] [Trans (· < · : κ → κ → Prop) (· < · : κ → κ → Prop) (· < · : κ → κ → Prop)]
  [Std.Trichotomous (· < · : κ → κ → Prop)]

/-- The last entry of a key counts. -/
theorem get?_ofList [BEq κ] [LawfulBEq κ] (l : List (κ × β)) (k : κ) :
    (ofList l).get? k = l.reverse.lookup k := by
  rw [ofList, List.foldl_eq_foldr_reverse]
  induction l.reverse with
  | nil => rfl
  | cons e m ih =>
    obtain ⟨j, x⟩ := e
    rw [List.foldr_cons, get?_insert, ih, lookup_cons]

/-- The entries of a dictionary make it, in whatever order they come. -/
theorem ofList_of_perm [Std.Irrefl (· < · : κ → κ → Prop)] {d : Dict κ β}
    (h : l.Perm d.entries) : ofList l = d := by
  apply ext_get?
  intro k
  rw [get?_ofList, lookup_of_perm ((List.reverse_perm l).trans h) d.nodup_keys]
  rfl

end OfList

/-! ### Parts of a dictionary -/

/-- The entries whose values are of a kind. -/
def filter (p : β → Bool) (d : Dict κ β) : Dict κ β :=
  ⟨d.entries.filter fun e => p e.2, d.sorted.sublist List.filter_sublist⟩

theorem get?_filter [Std.Irrefl (· < · : κ → κ → Prop)] (p : β → Bool) (d : Dict κ β) (k : κ) :
    (d.filter p).get? k = (d.get? k).filter p := by
  apply Option.ext
  intro x
  have hpart : (k, x) ∈ (d.filter p).entries ↔ (d.filter p).get? k = some x := mem_entries_iff
  have hwhole : (k, x) ∈ d.entries ↔ d.get? k = some x := mem_entries_iff
  rw [← hpart, Option.filter_eq_some_iff, ← hwhole, filter, List.mem_filter]

theorem size_filter [Std.Irrefl (· < · : κ → κ → Prop)] (p : β → Bool) (d : Dict κ β) :
    (d.filter p).size = d.keys.countP fun k => (d.get? k).any p := by
  rw [size, filter, ← List.countP_eq_length_filter, keys, List.countP_map]
  refine List.countP_congr fun e he => ?_
  show p e.2 = true ↔ (d.get? e.1).any p = true
  rw [mem_entries_iff.1 he]
  rfl

end AuthVault.Dict
