import AuthVault.Proofs.Files.Tree
import AuthVault.Proofs.Snapshot.Codec
import AuthVault.Snapshot.Storage

/-!
# Snapshots loaded again

A file that has been replaced by way of a temporary one holds the new data (`read_of_replaceFile`),
which is a snapshot of the contents that were saved (`read_of_save`). So loading takes over exactly
these, whatever was in memory before and in whatever order the entries were written
(`load_of_save`), and so does a new backend (`openBackend_of_save`).
-/

namespace AuthVault.Snapshot

variable {c : Contents} {s : Snapshot} {path : Path} {data : Bytes} {files files' : FileTree}

theorem save_some (listing : String → Listing (Bytes × Bytes)) (clock : Int) (path : Path)
    (c : Contents) (files : FileTree) : save listing clock (some path) c files
      = replaceFile path (ofContents listing (millisOf clock) c).encode files := rfl

theorem eq_ok_of_fileStep {next : Except FileFault FileTree}
    (h : fileStep files next = (.ok (), files')) : next = .ok files' := by
  cases next with
  | error fault => cases congrArg Prod.fst h
  | ok t => rw [show t = files' from congrArg Prod.snd h]

theorem read_of_replaceFile (h : replaceFile path data files = (.ok (), files')) :
    files'.read path = .ok data := by
  unfold replaceFile at h
  split at h
  · cases congrArg Prod.fst h
  next created _ =>
  split at h
  · cases congrArg Prod.fst h
  next written hwrite =>
  have hread := FileTree.read_of_write (eq_ok_of_fileStep hwrite)
  exact FileTree.read_of_rename hread (eq_ok_of_fileStep h)

theorem load_of_read (h : files.read path = .ok data) (prior : Contents) :
    load (some path) files prior = restore data := by
  have hhas : files.has path = true := by
    unfold FileTree.has
    unfold FileTree.read at h
    split at h
    · rfl
    · contradiction
  simp only [load, hhas, Bool.not_true, Bool.false_eq_true, if_false, h]

theorem restore_encode_self (hlists : s.Lists c) (hfits : Fits c) : restore s.encode = .ok c := by
  rw [← List.append_nil s.encode]
  exact restore_encode hlists hfits []

/-- What was saved is read from the file as a snapshot that lists the contents. -/
theorem read_of_save {listing : String → Listing (Bytes × Bytes)} {clock : Int}
    (h : save listing clock (some path) c files = (.ok (), files')) :
    ∃ s : Snapshot, s.Lists c ∧ s.createdMillis = millisOf clock ∧
      files'.read path = .ok s.encode :=
  ⟨_, lists_ofContents listing _ c, rfl, read_of_replaceFile h⟩

/-- A backend opened on what was saved has these contents. -/
theorem openBackend_of_save {listing : String → Listing (Bytes × Bytes)} {clock : Int}
    (hfits : Fits c) (h : save listing clock (some path) c files = (.ok (), files')) :
    openBackend (some path) files' = .ok ⟨c, []⟩ := by
  obtain ⟨s, hlists, -, hread⟩ := read_of_save h
  rw [openBackend, load_of_read hread, restore_encode_self hlists hfits]
  rfl

/-- No fault is armed in a backend that has just been opened. -/
theorem eq_of_openBackend {path : Option Path} {b : Backend} (h : openBackend path files = .ok b) :
    b = ⟨b.contents, []⟩ := by
  rw [openBackend] at h
  cases hload : load path files .empty with
  | error e =>
    rw [hload] at h
    contradiction
  | ok c =>
    rw [hload] at h
    cases Except.ok.inj h
    rfl

/-- What has been saved of contents that fit is loaded again, all of it and nothing else: from the
bytes, whatever the order of the entries in them, and from the file that was replaced with them. -/
theorem load_of_save (hfits : Fits c) (hlists : s.Lists c) (clock : Int) (path : Path)
    (files : FileTree) (prior : Contents) :
    restore s.encode = .ok c ∧
      (∀ files', replaceFile path s.encode files = (.ok (), files') →
        load (some path) files' prior = .ok c) ∧
      ∀ listing files', save listing clock (some path) c files = (.ok (), files') →
        load (some path) files' prior = .ok c := by
  have hrestore := restore_encode_self hlists hfits
  refine ⟨hrestore, fun files' hsaved => ?_, fun listing files' hsaved => ?_⟩
  · rw [load_of_read (read_of_replaceFile hsaved), hrestore]
  · obtain ⟨s', hlists', -, hread⟩ := read_of_save hsaved
    rw [load_of_read hread, restore_encode_self hlists' hfits]

/-- Two namespaces, one of them empty, that are written in another order than they are kept in. -/
theorem load_of_save_shuffled :
    let c : Contents := ⟨[("empty", .empty), ("notes", ⟨[([1], []), ([2], [7, 8])], by decide⟩)],
      by decide⟩
    let s : Snapshot := ⟨currentVersion, 0, [("notes", [([2], [7, 8]), ([1], [])]), ("empty", [])]⟩
    let path : Path := ⟨["vault.bin"]⟩
    Fits c ∧ s.Lists c ∧
      load (some path) (replaceFile path s.encode .empty).2
        ⟨[("old", ⟨[([1], [1])], by decide⟩)], by decide⟩ = .ok c := by
  intro c s path
  have hfits : Fits c := ⟨by decide, by decide⟩
  have hlists : s.Lists c := by
    refine ⟨rfl, .swap _ _ _, fun space hspace => ?_⟩
    rcases List.mem_cons.1 hspace with rfl | hspace
    · exact ⟨_, rfl, .swap _ _ _⟩
    · rw [List.mem_singleton.1 hspace]
      exact ⟨_, rfl, .refl _⟩
  exact ⟨hfits, hlists, (load_of_save hfits hlists 0 path .empty _).2.1 _ rfl⟩

end AuthVault.Snapshot

namespace AuthVault

/-! ### In place -/

namespace Store

variable {st : Store} {path : Path} {data : Bytes}

theorem load_of_restore {memory : Contents} (hread : st.files.read path = .ok data)
    (h : Snapshot.restore data = .ok memory) :
    st.load (some path) = (.ok (), { st with memory }) := by
  rw [load, Snapshot.load_of_read hread, h]

theorem load_of_restore_error {e : BackendError} (hread : st.files.read path = .ok data)
    (h : Snapshot.restore data = .error e) : st.load (some path) = (.error e, st) := by
  rw [load, Snapshot.load_of_read hread, h]

end Store

end AuthVault
