import AuthVault.Proofs.Dict
import AuthVault.Proofs.Object

/-!
# The scan of bulk deletion

Bulk deletion goes through all keys in whatever order they are listed, and removes entries while it
does. Whatever the namespace holds, also under keys that are no texts and with values that are empty
or cannot be read (`heldAt`), the order makes no difference to what matters (`on_deleteAllIn_scan`).

A visit tells by the value under its key alone what to do (`on_visit_of_held`,
`on_visit_of_garbled`) and leaves all other entries as they are. So where everything can be read, each
key counts for what it held in the beginning (`count_removeOwned`). A value that cannot be read is
not removed before it is come to, and thus stops the scan if nothing else has
(`on_removeOwned_of_garbled`).
-/

namespace AuthVault.Objects

open AuthVault.Action Contents

variable {c c' : Contents} {owner : String} {key : Bytes} {keys : List Bytes}
  {found : Option StoredObject} {object : StoredObject} {cause : DecodeError}

/-- What a scan finds under a key: nothing where the key is no text, or the value is empty. -/
def heldAt (c : Contents) (key : Bytes) : Except DecodeError (Option StoredObject) :=
  match Bytes.text? key, c.value? space key with
  | some _, some value => if value = [] then .ok none else some <$> Record.decode value
  | _, _ => .ok none

/-- Under a key there is an object of an owner. -/
def owns (c : Contents) (owner : String) (key : Bytes) : Bool :=
  match heldAt c key with
  | .ok (some object) => object.owner = owner
  | _ => false

/-- What a scan finds under a text is what a look-up finds. -/
theorem answer_load (h : c.Has space) (id : String) :
    (load id).answer c = (heldAt c (Bytes.ofText id)).mapError .codec := by
  rw [heldAt, Bytes.text?_ofText]
  cases hvalue : c.value? space (Bytes.ofText id) with
  | none => exact Backend.answer_getRecord_eq_none_iff.2 ⟨h, .inl hvalue⟩
  | some value =>
    by_cases hne : value = []
    · simp only [if_pos hne]
      exact Backend.answer_getRecord_eq_none_iff.2 ⟨h, .inr (hne ▸ hvalue)⟩
    · simp only [if_neg hne]
      cases hdecode : (Record.decode value : Except DecodeError StoredObject) with
      | ok object => exact Backend.answer_getRecord_eq_some_iff.2 ⟨value, hvalue, hne, hdecode⟩
      | error cause => exact Backend.answer_getRecord_of_decode_error hvalue hne hdecode

theorem heldAt_of_text?_eq_none (h : Bytes.text? key = none) (c : Contents) :
    heldAt c key = .ok none := by
  rw [heldAt, h]

theorem exists_value?_of_garbled (h : heldAt c key = .error cause) :
    ∃ value, c.value? space key = some value := by
  rw [heldAt] at h
  split at h
  · next value _ hvalue => exact ⟨value, hvalue⟩
  · contradiction

/-- What is found under a key does not depend on other entries. -/
theorem heldAt_congr (h : c'.value? space key = c.value? space key) :
    heldAt c' key = heldAt c key := by
  rw [heldAt, heldAt, h]

theorem owns_congr (h : c'.value? space key = c.value? space key) :
    owns c' owner key = owns c owner key := by
  rw [owns, owns, heldAt_congr h]

theorem owns_iff (h : c.Has space) : owns c owner key = true ↔ ∃ id object,
    key = Bytes.ofText id ∧ (load id).answer c = .ok (some object) ∧ object.owner = owner := by
  constructor
  · intro howns
    cases htext : Bytes.text? key with
    | none =>
      rw [owns, heldAt_of_text?_eq_none htext] at howns
      contradiction
    | some id =>
      obtain rfl := Bytes.text?_eq_some_iff.1 htext
      rw [owns] at howns
      rcases hheld : heldAt c (Bytes.ofText id) with cause | _ | object
      all_goals rw [hheld] at howns
      · contradiction
      · contradiction
      · exact ⟨id, object, rfl, by rw [answer_load h, hheld]; rfl, of_decide_eq_true howns⟩
  · rintro ⟨id, object, rfl, hload, howner⟩
    rw [answer_load h] at hload
    rw [owns]
    cases hheld : heldAt c (Bytes.ofText id) with
    | error cause => rw [hheld] at hload; contradiction
    | ok found =>
      rw [hheld] at hload
      rw [show found = some object from Except.ok.inj hload]
      exact decide_eq_true howner

/-! ### Visits -/

theorem on_visit_of_garbled (h : c.Has space) (hheld : heldAt c key = .error cause) :
    (visit owner key).on c = (.error (.codec cause), c) := by
  cases htext : Bytes.text? key with
  | none =>
    rw [heldAt_of_text?_eq_none htext] at hheld
    contradiction
  | some id =>
    obtain rfl := Bytes.text?_eq_some_iff.1 htext
    rw [on_visit, answer_load h, hheld]
    rfl

/-- What can be read is counted and removed if it belongs to the owner; other keys keep what they
have. -/
theorem on_visit_of_held (h : c.Has space) (hheld : heldAt c key = .ok found) (owner : String) :
    ∃ c', (visit owner key).on c = (.ok (if owns c owner key then 1 else 0), c') ∧ c'.Has space ∧
      ∀ k, k ≠ key → c'.value? space k = c.value? space k := by
  cases htext : Bytes.text? key with
  | none =>
    rw [on_visit_of_text?_eq_none htext, owns, heldAt_of_text?_eq_none htext]
    exact ⟨c, rfl, h, fun _ _ => rfl⟩
  | some id =>
    obtain rfl := Bytes.text?_eq_some_iff.1 htext
    rw [on_visit, answer_load h, owns, hheld]
    cases found with
    | none => exact ⟨c, rfl, h, fun _ _ => rfl⟩
    | some object =>
      by_cases howner : object.owner = owner
      · refine ⟨c.remove space (Bytes.ofText id), ?_, (has_remove _).2 h, fun k hk => ?_⟩
        · simp only [Except.mapError, howner, decide_true, if_true]
        · exact value?_remove_of_ne fun heq => hk heq.2
      · refine ⟨c, ?_, h, fun _ _ => rfl⟩
        simp only [Except.mapError, howner, decide_false, if_false, Bool.false_eq_true]

/-! ### Scans -/

/-- Each key counts for what is under it in the beginning. -/
theorem count_removeOwned (h : c.Has space) (hkeys : keys.Nodup) {removed n : Nat}
    (hon : (removeOwned owner keys removed).on c = (.ok n, c')) :
    n = removed + keys.countP (owns c owner) := by
  induction keys generalizing c removed with
  | nil => exact (Except.ok.inj (congrArg Prod.fst hon)).symm
  | cons key rest ih =>
    obtain ⟨hkey, hrest⟩ := List.nodup_cons.1 hkeys
    have hsteady := (atomic_visit owner key).steady
    rw [removeOwned_cons] at hon
    cases hheld : heldAt c key with
    | error cause =>
      rw [on_bind_error hsteady (on_visit_of_garbled h hheld)] at hon
      cases congrArg Prod.fst hon
    | ok found =>
      obtain ⟨c₁, hvisit, h₁, hothers⟩ := on_visit_of_held h hheld owner
      rw [on_bind_ok hsteady hvisit] at hon
      have hsame : rest.countP (owns c₁ owner) = rest.countP (owns c owner) := by
        refine List.countP_congr fun k hk => ?_
        rw [owns_congr (hothers k fun heq => hkey (heq ▸ hk))]
      rw [ih h₁ hrest hon, hsame, List.countP_cons]
      omega

/-- A value that cannot be read stops the scan, unless another one has. -/
theorem on_removeOwned_of_garbled (h : c.Has space) (hkey : key ∈ keys)
    (hheld : heldAt c key = .error cause) (owner : String) (removed : Nat) :
    ∃ cause' c', (removeOwned owner keys removed).on c = (.error (.codec cause'), c') := by
  induction keys generalizing c removed with
  | nil => contradiction
  | cons first rest ih =>
    have hsteady := (atomic_visit owner first).steady
    rw [removeOwned_cons]
    cases hfirst : heldAt c first with
    | error cause' =>
      exact ⟨cause', c, on_bind_error hsteady (on_visit_of_garbled h hfirst)⟩
    | ok found =>
      obtain ⟨c₁, hvisit, h₁, hothers⟩ := on_visit_of_held h hfirst owner
      have hne : key ≠ first := by
        rintro rfl
        rw [hfirst] at hheld
        contradiction
      rw [on_bind_ok hsteady hvisit]
      exact ih h₁ ((List.mem_cons.1 hkey).resolve_left hne)
        ((heldAt_congr (hothers key hne)).trans hheld) _

theorem Emptied.without (hemptied : Emptied owner c c') (h : c.Has space) :
    Without (fun s k => s = space ∧ owns c owner k) c c' := by
  refine ⟨hemptied.purged.has_iff, fun s k hk => ?_, fun s k hk => ?_⟩
  · obtain ⟨rfl, howns⟩ := hk
    obtain ⟨id, object, rfl, hload, howner⟩ := (owns_iff h).1 howns
    exact hemptied.gone id object hload howner
  · rcases hemptied.purged.value?_eq s k with heq | ⟨-, rfl, hheld⟩
    · exact heq
    · exact absurd ⟨rfl, (owns_iff h).2 hheld⟩ hk

/-- Bulk deletion does not depend on the order in which the keys are listed. Where everything that
is to be read can be read, it counts and removes the objects of the owner, and leaves all else.
Otherwise it fails for what cannot be read, and has removed nothing but objects of the owner. -/
theorem on_deleteAllIn_scan {t : Table} (ht : c.get? space = some t) (owner : String) :
    deleteAllIn .ascending owner = deleteAll owner ∧
    ((∀ key, ∃ found, heldAt c key = .ok found) → ∃ c',
      Without (fun s k => s = space ∧ owns c owner k) c c' ∧ ∀ listing : Listing Bytes,
        (deleteAllIn listing owner).on c = (.ok (t.keys.countP (owns c owner)), c')) ∧
    ((¬ ∀ key, ∃ found, heldAt c key = .ok found) → ∀ listing : Listing Bytes, ∃ cause c',
      (deleteAllIn listing owner).on c = (.error (.codec cause), c') ∧
      (∀ s, c'.Has s ↔ c.Has s) ∧ ∀ s k, c'.value? s k = c.value? s k ∨
        c'.value? s k = none ∧ s = space ∧ owns c owner k) := by
  have hhas : c.Has space := ⟨t, ht⟩
  have hscan : ∀ listing : Listing Bytes, (deleteAllIn listing owner).on c
      = (removeOwned owner (listing.order t.keys) 0).on c := fun listing =>
    on_bind_ok (Backend.readOnly_keys space).steady (Backend.on_keys_of_get? ht)
  refine ⟨rfl, fun hlegible => ?_, fun hgarbled listing => ?_⟩
  · have hread : Readable c := by
      intro id
      obtain ⟨found, hheld⟩ := hlegible (Bytes.ofText id)
      exact ⟨found, by rw [answer_load hhas, hheld]; rfl⟩
    obtain ⟨m, c', -, hemptied⟩ := on_deleteAllIn hread .ascending owner
    refine ⟨c', hemptied.without hhas, fun listing => ?_⟩
    obtain ⟨n, c'', hon, hemptied'⟩ := on_deleteAllIn hread listing owner
    have hcount := count_removeOwned hhas ((listing.perm t.keys).nodup_iff.2 t.nodup_keys)
      ((hscan listing).symm.trans hon)
    rw [hon, hemptied'.unique hemptied, hcount, (listing.perm t.keys).countP_eq, Nat.zero_add]
  · obtain ⟨key, hkey⟩ := Classical.not_forall.1 hgarbled
    cases hheld : heldAt c key with
    | ok found => exact absurd ⟨found, hheld⟩ hkey
    | error cause =>
      have hmem : key ∈ listing.order t.keys := by
        rw [(listing.perm t.keys).mem_iff, Dict.mem_keys_iff, ← value?_of_get? ht]
        exact exists_value?_of_garbled hheld
      obtain ⟨cause', c', hon⟩ := on_removeOwned_of_garbled hhas hmem hheld owner 0
      have hpurged : Purged owner c ((deleteAllIn listing owner).on c).2 :=
        purged_deleteAllIn listing owner ⟨c, []⟩
      rw [hscan, hon] at hpurged
      refine ⟨cause', c', (hscan listing).trans hon, hpurged.has_iff, fun s k => ?_⟩
      rcases hpurged.value?_eq s k with heq | ⟨hnone, hs, howned⟩
      · exact .inl heq
      · exact .inr ⟨hnone, hs, (owns_iff hhas).2 howned⟩

/-- An object of a user. -/
def note : StoredObject := ⟨"note", [7], ⟨"ann"⟩⟩

/-- An object, an empty value, and a key that is no text. -/
def strewn : Table :=
  ((Dict.empty.insert [255] [1]).insert (Bytes.ofText "gap") []).insert (Bytes.ofText "note")
    (Record.encode note)

theorem get?_strewn (key : Bytes) : strewn.get? key =
    if key = Bytes.ofText "note" then some (Record.encode note)
    else if key = Bytes.ofText "gap" then some []
    else if key = [255] then some [1] else none := by
  rw [strewn, Dict.get?_insert, Dict.get?_insert, Dict.get?_insert]
  rfl

theorem heldAt_strewn (key : Bytes) : heldAt (Dict.empty.insert space strewn) key
    = .ok (if key = Bytes.ofText "note" then some note else none) := by
  have hne : (Record.encode note : Bytes) ≠ [] := LawfulRecord.encode_ne_nil note
  rw [heldAt, value?_of_get? (Dict.get?_insert_self _ _ _), get?_strewn]
  by_cases hnote : key = Bytes.ofText "note"
  · rw [if_pos hnote, if_pos hnote, hnote, Bytes.text?_ofText]
    simp only [if_neg hne, LawfulRecord.decode_encode]
    rfl
  · rw [if_neg hnote, if_neg hnote]
    by_cases hgap : key = Bytes.ofText "gap"
    · rw [if_pos hgap, hgap, Bytes.text?_ofText]
      rfl
    · rw [if_neg hgap]
      by_cases hodd : key = [255]
      · rw [hodd, show Bytes.text? [255] = none from rfl]
      · rw [if_neg hodd]
        cases Bytes.text? key <;> rfl

theorem owns_strewn (key : Bytes) : owns (Dict.empty.insert space strewn) "ann" key
    = decide (key = Bytes.ofText "note") := by
  rw [owns, heldAt_strewn]
  by_cases hnote : key = Bytes.ofText "note"
  · rw [if_pos hnote, decide_eq_true hnote]
    rfl
  · rw [if_neg hnote, decide_eq_false hnote]

/-- One object is removed, in whatever order the keys come. -/
theorem on_deleteAllIn_strewn : ∃ c', ∀ listing : Listing Bytes,
    (deleteAllIn listing "ann").on (Dict.empty.insert space strewn) = (.ok 1, c') := by
  obtain ⟨-, hlegible, -⟩ := on_deleteAllIn_scan (Dict.get?_insert_self .empty space strewn) "ann"
  obtain ⟨c', -, hon⟩ := hlegible fun key => ⟨_, heldAt_strewn key⟩
  have hcount : strewn.keys.countP (owns (Dict.empty.insert space strewn) "ann") = 1 := by
    rw [funext owns_strewn]
    decide
  exact ⟨c', fun listing => hcount ▸ hon listing⟩

end AuthVault.Objects
