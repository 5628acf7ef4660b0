import AuthVault.Proofs.Dict
import AuthVault.Snapshot.Codec

/-!
# Snapshots read back

A reader `Reads` a byte string as a value if it takes exactly these bytes, whatever follows them. The
parts of a snapshot are read as what was written (`reads_snapshot`), provided that every count and
length fits its field (`Fits`), so a snapshot that lists contents, in whatever order, restores these
contents (`restore_encode`).
-/

namespace AuthVault.Snapshot

/-- A reader takes these bytes from the front of any byte string, and makes this of them. -/
def Reads {α : Type} (r : Reader α) (b : Bytes) (x : α) : Prop :=
  ∀ rest, r (b ++ rest) = some (x, rest)

section Readers

variable {α β : Type} {r : Reader α} {f : α → Reader β} {b b' : Bytes} {x : α} {y : β}

theorem reads_pure (x : α) : Reads (pure x) [] x := fun _ => rfl

theorem Reads.bind (hr : Reads r b x) (hf : Reads (f x) b' y) : Reads (r >>= f) (b ++ b') y := by
  intro rest
  have hsteps : (r >>= f) (b ++ b' ++ rest) = (r (b ++ (b' ++ rest))).bind fun p => f p.1 p.2 := by
    rw [List.append_assoc]
    rfl
  rw [hsteps, hr]
  exact hf rest

theorem Reads.map (hr : Reads r b x) (g : α → β) : Reads (g <$> r) b (g x) := by
  have hbind : Reads (r >>= fun x => pure (g x)) (b ++ []) (g x) := hr.bind (reads_pure (g x))
  rw [List.append_nil, bind_pure_comp] at hbind
  exact hbind

/-! ### Numbers and byte strings -/

theorem takeAfter_append (done b rest : Bytes) :
    takeAfter done b.length (b ++ rest) = some (done.reverse ++ b, rest) := by
  induction b generalizing done with
  | nil => simp [takeAfter]
  | cons x b ih =>
    rw [List.length_cons, List.cons_append, takeAfter, ih]
    simp

theorem reads_takeBytes (b : Bytes) : Reads (takeBytes b.length) b b := takeAfter_append [] b

theorem reads_number {width n : Nat} (h : n < Nat.pow 256 width) :
    Reads (decodeNumber width) (Bytes.littleEndian width n) n := by
  have htake := reads_takeBytes (Bytes.littleEndian width n)
  rw [Bytes.length_littleEndian] at htake
  have hnumber := htake.map Bytes.ofLittleEndian
  rw [Bytes.ofLittleEndian_littleEndian width n h] at hnumber
  exact hnumber

theorem reads_count {n : Nat} (h : n < UInt64.size) : Reads decodeCount (encodeCount n) n :=
  reads_number h

theorem reads_bytes {b : Bytes} (h : b.length < UInt64.size) :
    Reads decodeBytes (encodeBytes b) b :=
  (reads_count h).bind (reads_takeBytes b)

/-! ### Lists -/

variable {item : Reader α} {enc : α → Bytes} {xs : List α}

theorem reads_items (h : ∀ x ∈ xs, Reads item (enc x) x) (done : List α) :
    Reads (decodeItems item xs.length done) (xs.flatMap enc) (done.reverse ++ xs) := by
  induction xs generalizing done with
  | nil =>
    rw [List.append_nil]
    exact reads_pure _
  | cons x xs ih =>
    have hrest := ih (fun y hy => h y (List.mem_cons_of_mem x hy)) (x :: done)
    rw [List.reverse_cons, List.append_assoc] at hrest
    exact (h x List.mem_cons_self).bind hrest

theorem reads_list (hlength : xs.length < UInt64.size) (h : ∀ x ∈ xs, Reads item (enc x) x) :
    Reads (decodeList item) (encodeCount xs.length ++ xs.flatMap enc) xs :=
  (reads_count hlength).bind (reads_items h [])

end Readers

/-! ### Snapshots -/

theorem reads_entry {e : Bytes × Bytes} (hkey : e.1.length < UInt64.size)
    (hvalue : e.2.length < UInt64.size) : Reads decodeEntry (encodeEntry e) e :=
  (reads_bytes hkey).bind ((reads_bytes hvalue).map fun value => (e.1, value))

/-- The counts and lengths of a namespace fit their fields. -/
structure FitsSpace (name : String) (entries : List (Bytes × Bytes)) : Prop where
  name : (Bytes.ofText name).length < UInt64.size
  size : entries.length < UInt64.size
  key : ∀ e ∈ entries, e.1.length < UInt64.size
  value : ∀ e ∈ entries, e.2.length < UInt64.size

instance (name : String) (entries : List (Bytes × Bytes)) : Decidable (FitsSpace name entries) :=
  decidable_of_iff ((Bytes.ofText name).length < UInt64.size ∧ entries.length < UInt64.size ∧
      (∀ e ∈ entries, e.1.length < UInt64.size) ∧ ∀ e ∈ entries, e.2.length < UInt64.size)
    ⟨fun ⟨hname, hsize, hkey, hvalue⟩ => ⟨hname, hsize, hkey, hvalue⟩,
      fun h => ⟨h.name, h.size, h.key, h.value⟩⟩

theorem FitsSpace.of_perm {name : String} {entries entries' : List (Bytes × Bytes)}
    (h : FitsSpace name entries) (hperm : entries'.Perm entries) : FitsSpace name entries' :=
  ⟨h.name, hperm.length_eq ▸ h.size, fun e he => h.key e (hperm.mem_iff.1 he),
    fun e he => h.value e (hperm.mem_iff.1 he)⟩

theorem reads_space {space : String × List (Bytes × Bytes)} (h : FitsSpace space.1 space.2) :
    Reads decodeSpace (encodeSpace space) space := by
  have hentries : Reads (decodeList decodeEntry)
      (encodeCount space.2.length ++ space.2.flatMap encodeEntry) space.2 :=
    reads_list h.size fun e he => reads_entry (h.key e he) (h.value e he)
  have hname : Reads (Bytes.text? (Bytes.ofText space.1) : Reader String) [] space.1 := by
    rw [Bytes.text?_ofText]
    exact reads_pure _
  rw [encodeSpace, List.append_assoc]
  exact (reads_bytes h.name).bind (hname.bind (hentries.map fun entries => (space.1, entries)))

variable {s : Snapshot} {c : Contents}

/-- The time that is read where a time has been written: the same, unless it wraps. -/
def wrapped (createdMillis : Int) : Int := signed (createdMillis % UInt64.size).toNat

/-- What is written of a snapshot is read as the snapshot; its time may wrap. -/
theorem reads_snapshot (hversion : s.version < UInt32.size) (hsize : s.spaces.length < UInt64.size)
    (hspaces : ∀ space ∈ s.spaces, FitsSpace space.1 space.2) :
    Reads decodeSnapshot s.encode { s with createdMillis := wrapped s.createdMillis } := by
  have htime : (s.createdMillis % UInt64.size).toNat < UInt64.size := by
    have hlt := Int.emod_lt_of_pos s.createdMillis (show (0 : Int) < UInt64.size by decide)
    have hnonneg := Int.emod_nonneg s.createdMillis (show (UInt64.size : Int) ≠ 0 by decide)
    omega
  have hlist : Reads (decodeList decodeSpace)
      (encodeCount s.spaces.length ++ s.spaces.flatMap encodeSpace) s.spaces :=
    reads_list hsize fun space hspace => reads_space (hspaces space hspace)
  rw [encode, List.append_assoc, List.append_assoc]
  exact (reads_number hversion).bind ((reads_number htime).bind (hlist.map _))

/-! ### Contents -/

/-- The counts and lengths of contents fit their fields. -/
structure Fits (c : Contents) : Prop where
  size : c.size < UInt64.size
  spaces : ∀ e ∈ c.entries, FitsSpace e.1 e.2.entries

/-- A snapshot of the current version that lists contents, the namespaces and the entries of each
in any order. -/
structure Lists (s : Snapshot) (c : Contents) : Prop where
  version : s.version = currentVersion
  names : (s.spaces.map (·.1)).Perm c.keys
  entries : ∀ space ∈ s.spaces, ∃ t, c.get? space.1 = some t ∧ space.2.Perm t.entries

theorem lists_ofContents (listing : String → Listing (Bytes × Bytes)) (createdMillis : Int)
    (c : Contents) : (ofContents listing createdMillis c).Lists c := by
  refine ⟨rfl, ?_, fun space hspace => ?_⟩
  · rw [ofContents, List.map_map]
    exact List.Perm.refl _
  · obtain ⟨e, he, rfl⟩ := List.mem_map.1 hspace
    exact ⟨e.2, Dict.mem_entries_iff.1 he, (listing e.1).perm _⟩

theorem contents_of_lists (h : s.Lists c) : s.contents = c := by
  have hnames : ((s.spaces.map fun e => (e.1, (Dict.ofList e.2 : Table))).map (·.1)).Nodup := by
    rw [List.map_map]
    exact h.names.nodup_iff.2 c.nodup_keys
  apply Dict.ext_get?
  intro name
  rw [contents, Dict.get?_ofList, Dict.lookup_of_perm (List.reverse_perm _) hnames]
  apply Option.ext
  intro t
  rw [Dict.lookup_eq_some_iff hnames, List.mem_map]
  constructor
  · rintro ⟨space, hspace, heq⟩
    obtain ⟨rfl, rfl⟩ := Prod.mk.inj heq
    obtain ⟨t, ht, hperm⟩ := h.entries space hspace
    rw [ht, Dict.ofList_of_perm hperm]
  · intro ht
    have hname : name ∈ s.spaces.map (·.1) := h.names.mem_iff.2 (Dict.mem_keys_iff.2 ⟨t, ht⟩)
    obtain ⟨space, hspace, rfl⟩ := List.mem_map.1 hname
    obtain ⟨t', ht', hperm⟩ := h.entries space hspace
    rw [ht] at ht'
    exact ⟨space, hspace, by rw [Dict.ofList_of_perm hperm, ← Option.some.inj ht']⟩

/-- Every version of a snapshot that lists contents which fit is read as what was written. -/
theorem Lists.reads (h : s.Lists c) (hfits : Fits c) {version : Nat} (hversion : version < UInt32.size) :
    Reads decodeSnapshot { s with version }.encode
      { s with version, createdMillis := wrapped s.createdMillis } := by
  have hsize : s.spaces.length < UInt64.size := by
    have hlength := h.names.length_eq
    rw [List.length_map, Dict.keys, List.length_map] at hlength
    exact hlength ▸ hfits.size
  have hspaces : ∀ space ∈ s.spaces, FitsSpace space.1 space.2 := by
    intro space hspace
    obtain ⟨t, ht, hperm⟩ := h.entries space hspace
    exact (hfits.spaces (space.1, t) (Dict.mem_entries_iff.2 ht)).of_perm hperm
  exact reads_snapshot hversion hsize hspaces

/-- What is written of contents that fit restores them, in whatever order they are listed and
whatever bytes follow. -/
theorem restore_encode (h : s.Lists c) (hfits : Fits c) (rest : Bytes) :
    restore (s.encode ++ rest) = .ok c := by
  have hversion : s.version < UInt32.size := by rw [h.version]; decide
  have hdecode : decode? (s.encode ++ rest)
      = some { s with createdMillis := wrapped s.createdMillis } := by
    rw [decode?, h.reads hfits hversion]
    rfl
  have hlists : Lists { s with createdMillis := wrapped s.createdMillis } c :=
    ⟨h.version, h.names, h.entries⟩
  simp only [restore, hdecode]
  rw [if_pos hlists.version, contents_of_lists hlists]

end AuthVault.Snapshot
