import AuthVault.Proofs.Snapshot.Codec

/-!
# What a snapshot is read from

A reader is `Exact` if whatever it makes of the front of a byte string is of a kind that can be
written, and the bytes that it has taken are those written of it. All readers of a snapshot are exact,
level by level, so a byte string begins with a snapshot exactly if it begins with the bytes written of
it (`decodeSnapshot_eq_some_iff`). From the two directions together, a reader makes nothing of bytes
that have been cut off before their end (`eq_none_of_cut`): what it made of them would be written in
fewer bytes, and these would be read as that from the whole as well.
-/

namespace AuthVault

/-! ### Little-endian numbers -/

namespace Bytes

theorem littleEndian_ofLittleEndian (b : Bytes) : littleEndian b.length (ofLittleEndian b) = b := by
  induction b with
  | nil => rfl
  | cons x b ih =>
    have hx : x.toNat < 256 := x.toNat_lt
    have hlow : (x.toNat + 256 * ofLittleEndian b).toUInt8 = x := by
      apply UInt8.toNat_inj.1
      rw [Nat.toUInt8, UInt8.toNat_ofNat']
      omega
    have hhigh : (x.toNat + 256 * ofLittleEndian b) / 256 = ofLittleEndian b := by omega
    show (x.toNat + 256 * ofLittleEndian b).toUInt8
      :: littleEndian b.length ((x.toNat + 256 * ofLittleEndian b) / 256) = x :: b
    rw [hlow, hhigh, ih]

theorem ofLittleEndian_lt (b : Bytes) : ofLittleEndian b < Nat.pow 256 b.length := by
  induction b with
  | nil => exact Nat.one_pos
  | cons x b ih =>
    have hx : x.toNat < 256 := x.toNat_lt
    show x.toNat + 256 * ofLittleEndian b < Nat.pow 256 b.length * 256
    omega

end Bytes

namespace Snapshot

variable {α β : Type} {r : Reader α} {f : α → Reader β} {P : α → Prop} {enc : α → Bytes}
  {b rest : Bytes}

/-! ### Exact readers -/

/-- Whatever a reader makes of bytes is of a kind, and the bytes taken are those written of it. -/
def Exact (r : Reader α) (P : α → Prop) (enc : α → Bytes) : Prop :=
  ∀ {b x rest}, r b = some (x, rest) → P x ∧ b = enc x ++ rest

/-- A sequence of readers that succeeds is one success after the other. -/
theorem bind_eq_some {y : β} (h : (r >>= f) b = some (y, rest)) :
    ∃ x b', r b = some (x, b') ∧ f x b' = some (y, rest) := by
  obtain ⟨⟨x, b'⟩, hr, hf⟩ := Option.bind_eq_some_iff.1 h
  exact ⟨x, b', hr, hf⟩

theorem map_eq_some {g : α → β} {y : β} (h : (g <$> r) b = some (y, rest)) :
    ∃ x, r b = some (x, rest) ∧ g x = y := by
  rw [← bind_pure_comp] at h
  obtain ⟨x, b', hr, hg⟩ := bind_eq_some h
  obtain ⟨rfl, rfl⟩ := Prod.mk.inj (Option.some.inj hg)
  exact ⟨x, hr, rfl⟩

/-- Where all that is written is read again, nothing is made of bytes that have been cut off. -/
theorem eq_none_of_cut (hexact : Exact r P enc) (hreads : ∀ x, P x → Reads r (enc x) x)
    {x : α} {front back : Bytes} (hwhole : Reads r (front ++ back) x) (hback : back ≠ []) :
    r front = none := by
  cases hfront : r front with
  | none => rfl
  | some found =>
    obtain ⟨y, rest⟩ := found
    obtain ⟨hy, hbytes⟩ := hexact hfront
    have hread : r (front ++ back) = some (y, rest ++ back) := by
      rw [hbytes, List.append_assoc]
      exact hreads y hy (rest ++ back)
    have hnothing : r (front ++ back) = some (x, []) := by
      have hread := hwhole []
      rwa [List.append_nil] at hread
    rw [hread] at hnothing
    have hrest : rest ++ back = [] := (Prod.mk.inj (Option.some.inj hnothing)).2
    exact absurd (List.append_eq_nil_iff.1 hrest).2 hback

/-! ### Numbers and byte strings -/

theorem takeAfter_eq_some {done taken : Bytes} {n : Nat} (h : takeAfter done n b = some (taken, rest)) :
    ∃ front, front.length = n ∧ taken = done.reverse ++ front ∧ b = front ++ rest := by
  induction n generalizing done b with
  | zero =>
    rw [takeAfter] at h
    obtain ⟨rfl, rfl⟩ := Prod.mk.inj (Option.some.inj h)
    exact ⟨[], rfl, (List.append_nil _).symm, rfl⟩
  | succ n ih =>
    cases b with
    | nil => contradiction
    | cons x b =>
      obtain ⟨front, hlength, rfl, rfl⟩ := ih h
      exact ⟨x :: front, congrArg Nat.succ hlength, by simp, rfl⟩

theorem exact_takeBytes (n : Nat) : Exact (takeBytes n) (fun x => x.length = n) id := by
  intro b x rest h
  obtain ⟨front, hlength, rfl, hbytes⟩ := takeAfter_eq_some h
  exact ⟨hlength, hbytes⟩

theorem exact_number (width : Nat) :
    Exact (decodeNumber width) (fun n => n < Nat.pow 256 width) (Bytes.littleEndian width) := by
  intro b n rest h
  have hmap : (Bytes.ofLittleEndian <$> takeBytes width) b = some (n, rest) := h
  obtain ⟨front, htake, rfl⟩ := map_eq_some hmap
  obtain ⟨rfl, rfl⟩ := exact_takeBytes width htake
  exact ⟨Bytes.ofLittleEndian_lt front, by rw [Bytes.littleEndian_ofLittleEndian]; rfl⟩

theorem exact_count : Exact decodeCount (fun n => n < UInt64.size) encodeCount := exact_number 8

theorem exact_bytes : Exact decodeBytes (fun x => x.length < UInt64.size) encodeBytes := by
  intro b x rest h
  obtain ⟨n, b', hcount, htake⟩ := bind_eq_some h
  obtain ⟨hn, rfl⟩ := exact_count hcount
  obtain ⟨rfl, rfl⟩ := exact_takeBytes n htake
  exact ⟨hn, (List.append_assoc _ _ _).symm⟩

/-! ### Lists -/

theorem exact_items (hitem : Exact r P enc) {n : Nat} {done xs : List α}
    (h : decodeItems r n done b = some (xs, rest)) :
    ∃ ys, ys.length = n ∧ xs = done.reverse ++ ys ∧ (∀ y ∈ ys, P y) ∧
      b = ys.flatMap enc ++ rest := by
  induction n generalizing done b with
  | zero =>
    obtain ⟨rfl, rfl⟩ := Prod.mk.inj (Option.some.inj h)
    exact ⟨[], rfl, (List.append_nil _).symm, nofun, rfl⟩
  | succ n ih =>
    obtain ⟨y, b', hy, hrest⟩ := bind_eq_some h
    obtain ⟨hP, rfl⟩ := hitem hy
    obtain ⟨ys, hlength, rfl, hys, rfl⟩ := ih hrest
    refine ⟨y :: ys, congrArg Nat.succ hlength, by simp, ?_, ?_⟩
    · exact List.forall_mem_cons.2 ⟨hP, hys⟩
    · rw [List.flatMap_cons, List.append_assoc]

theorem exact_list (hitem : Exact r P enc) :
    Exact (decodeList r) (fun xs => xs.length < UInt64.size ∧ ∀ x ∈ xs, P x)
      fun xs => encodeCount xs.length ++ xs.flatMap enc := by
  intro b xs rest h
  obtain ⟨n, b', hcount, hitems⟩ := bind_eq_some h
  obtain ⟨hn, rfl⟩ := exact_count hcount
  obtain ⟨ys, rfl, rfl, hys, rfl⟩ := exact_items hitem hitems
  exact ⟨⟨hn, hys⟩, (List.append_assoc _ _ _).symm⟩

/-! ### Snapshots -/

theorem exact_entry : Exact decodeEntry
    (fun e => e.1.length < UInt64.size ∧ e.2.length < UInt64.size) encodeEntry := by
  intro b e rest h
  obtain ⟨key, b', hkey, hmap⟩ := bind_eq_some h
  obtain ⟨value, b'', hvalue, hpure⟩ := bind_eq_some hmap
  obtain ⟨hkeyLength, rfl⟩ := exact_bytes hkey
  obtain ⟨hvalueLength, rfl⟩ := exact_bytes hvalue
  obtain ⟨rfl, rfl⟩ := Prod.mk.inj (Option.some.inj hpure)
  exact ⟨⟨hkeyLength, hvalueLength⟩, (List.append_assoc _ _ _).symm⟩

theorem exact_space : Exact decodeSpace (fun space => FitsSpace space.1 space.2) encodeSpace := by
  intro b space rest h
  obtain ⟨bytes, b', hbytes, hnamed⟩ := bind_eq_some h
  obtain ⟨name, b'', hname, hentries⟩ := bind_eq_some hnamed
  obtain ⟨entries, b''', hlist, hpure⟩ := bind_eq_some hentries
  obtain ⟨hnameLength, rfl⟩ := exact_bytes hbytes
  have htext : Bytes.text? bytes = some name ∧ b' = b'' := by
    cases htext : Bytes.text? bytes with
    | none =>
      rw [htext] at hname
      contradiction
    | some text =>
      rw [htext] at hname
      obtain ⟨rfl, rfl⟩ := Prod.mk.inj (Option.some.inj hname)
      exact ⟨rfl, rfl⟩
  obtain ⟨htext, rfl⟩ := htext
  obtain rfl := Bytes.text?_eq_some_iff.1 htext
  obtain ⟨⟨hsize, hfits⟩, rfl⟩ := exact_list exact_entry hlist
  obtain ⟨rfl, rfl⟩ := Prod.mk.inj (Option.some.inj hpure)
  refine ⟨⟨hnameLength, hsize, fun e he => (hfits e he).1, fun e he => (hfits e he).2⟩, ?_⟩
  simp only [encodeSpace, List.append_assoc]

/-- A snapshot whose version, time, counts and lengths fit their fields. -/
structure Storable (s : Snapshot) : Prop where
  version : s.version < UInt32.size
  earliest : -(UInt64.size / 2 : Int) ≤ s.createdMillis
  latest : s.createdMillis < UInt64.size / 2
  size : s.spaces.length < UInt64.size
  spaces : ∀ space ∈ s.spaces, FitsSpace space.1 space.2

theorem wrapped_eq {t : Int} (hearliest : -(UInt64.size / 2 : Int) ≤ t)
    (hlatest : t < UInt64.size / 2) : wrapped t = t := by
  have hsize : UInt64.size = 18446744073709551616 := rfl
  simp only [wrapped, signed, hsize] at *
  split <;> omega

/-- Every number that fits the field of the time is a time, and is written of it. -/
theorem signed_spec {n : Nat} (h : n < UInt64.size) :
    -(UInt64.size / 2 : Int) ≤ signed n ∧ signed n < UInt64.size / 2 ∧
      (signed n % UInt64.size).toNat = n := by
  have hsize : UInt64.size = 18446744073709551616 := rfl
  simp only [signed, hsize] at *
  split <;> omega

theorem exact_snapshot : Exact decodeSnapshot Storable encode := by
  intro b s rest h
  obtain ⟨version, b', hversion, htimed⟩ := bind_eq_some h
  obtain ⟨millis, b'', hmillis, hspaces⟩ := bind_eq_some htimed
  obtain ⟨spaces, b''', hlist, hpure⟩ := bind_eq_some hspaces
  obtain ⟨hversionLt, rfl⟩ := exact_number 4 hversion
  obtain ⟨hmillisLt, rfl⟩ := exact_number 8 hmillis
  obtain ⟨⟨hsize, hfits⟩, rfl⟩ := exact_list exact_space hlist
  obtain ⟨rfl, rfl⟩ := Prod.mk.inj (Option.some.inj hpure)
  obtain ⟨hearliest, hlatest, htime⟩ := signed_spec hmillisLt
  refine ⟨⟨hversionLt, hearliest, hlatest, hsize, hfits⟩, ?_⟩
  simp only [encode, htime, List.append_assoc]

theorem Storable.reads {s : Snapshot} (h : s.Storable) : Reads decodeSnapshot s.encode s := by
  have hreads := reads_snapshot h.version h.size h.spaces
  rwa [wrapped_eq h.earliest h.latest] at hreads

/-- A byte string begins with a snapshot exactly if it begins with the bytes written of it. -/
theorem decodeSnapshot_eq_some_iff {s : Snapshot} :
    decodeSnapshot b = some (s, rest) ↔ s.Storable ∧ b = s.encode ++ rest := by
  constructor
  · exact exact_snapshot
  · rintro ⟨hs, rfl⟩
    exact hs.reads rest

theorem decode?_eq_some_iff {s : Snapshot} :
    decode? b = some s ↔ s.Storable ∧ ∃ rest, b = s.encode ++ rest := by
  rw [decode?, Option.map_eq_some_iff]
  constructor
  · rintro ⟨⟨_, rest⟩, hdecode, rfl⟩
    obtain ⟨hs, hbytes⟩ := exact_snapshot hdecode
    exact ⟨hs, rest, hbytes⟩
  · rintro ⟨hs, rest, hbytes⟩
    exact ⟨(s, rest), decodeSnapshot_eq_some_iff.2 ⟨hs, hbytes⟩, rfl⟩

end Snapshot

end AuthVault
