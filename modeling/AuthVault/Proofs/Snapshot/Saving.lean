import AuthVault.Proofs.Files.Folders
import AuthVault.Proofs.Files.Path
import AuthVault.Proofs.Snapshot.Storage

/-!
# Saving keeps all other files

Saving ends in one of three ways (`Outcome`): without a temporary file, with one that could not be
moved, or with the file moved to its path. The temporary file has another name than the one at the path
(`name_ne_of_temporary`), so writing it leaves that alone, and creating the folder adds folders only.
Hence all files but the temporary one are as before where saving fails (`kept_of_error`), and where it
succeeds the one at the path is the only other one that is new (`kept_of_ok`). `save_safe` says so of
a backend.
-/

namespace AuthVault.Snapshot

open FileTree

variable {path : Path} {data : Bytes} {files files' : FileTree} {l l' : Location}
  {name name' : String}

/-! ### The temporary file -/

/-- The temporary file never is the one that it is to replace. -/
theorem temporary_ne (h : path.Names name) : temporary path ≠ path := by
  have htemporary : temporary path = path.withExtension ("bin" ++ "." ++ "tmp") := rfl
  rw [htemporary]
  exact Path.withExtension_ne h (by decide) (by decide)

/-- Files that can be put at a path and at its temporary one have different names. -/
theorem name_ne_of_temporary (hpath : files.Place path l name)
    (htemporary : files'.Place (temporary path) l' name') : name' ≠ name := by
  obtain ⟨hidle, hback⟩ := not_or.1 hpath.proper
  have hidle : Path.isIdle name = false := Bool.not_eq_true _ ▸ hidle
  obtain ⟨front, rfl⟩ : ∃ front, path = ⟨front ++ [name]⟩ :=
    ⟨path.pieces.dropLast, congrArg Path.mk hpath.pieces⟩
  have hne : temporary ⟨front ++ [name]⟩ ≠ ⟨front ++ [name]⟩ :=
    temporary_ne (Path.names_of_not_idle hidle hback)
  obtain ⟨last, hlast⟩ : ∃ last, temporary ⟨front ++ [name]⟩ = ⟨front ++ [last]⟩ := by
    rcases Path.withExtension_eq hidle hback "bin.tmp" with h | h
    · exact ⟨_, h⟩
    · exact ⟨_, h⟩
  have hpieces := htemporary.pieces
  rw [hlast, List.dropLast_concat] at hpieces
  obtain rfl : last = name' := List.singleton_inj.1 (List.append_cancel_left hpieces)
  exact fun heq => hne (by rw [hlast, heq])

/-! ### How saving ends -/

/-- The ways in which putting data into the file at a path ends. -/
inductive Outcome (path : Path) (data : Bytes) (files : FileTree) :
    Except BackendError Unit → FileTree → Prop
  | unwritten {fault : FileFault} {created : FileTree} (grown : Grown files created) :
      Outcome path data files (.error (.io fault)) created
  | unmoved {fault : FileFault} {created written : FileTree} (grown : Grown files created)
      (write : created.write (temporary path) data = .ok written) :
      Outcome path data files (.error (.io fault)) written
  | moved {created written moved : FileTree} (grown : Grown files created)
      (write : created.write (temporary path) data = .ok written)
      (rename : written.rename (temporary path) path = .ok moved) :
      Outcome path data files (.ok ()) moved

theorem outcome_replaceFile (path : Path) (data : Bytes) (files : FileTree) :
    Outcome path data files (replaceFile path data files).1 (replaceFile path data files).2 := by
  have hgrown := grown_createFolders files path.parent
  unfold replaceFile
  cases hcreate : files.createFolders path.parent with
  | mk r created =>
    rw [hcreate] at hgrown
    cases r with
    | error fault => exact .unwritten hgrown
    | ok _ =>
      cases hwrite : created.write (temporary path) data with
      | error fault =>
        simp only [fileStep, hwrite]
        exact .unwritten hgrown
      | ok written =>
        cases hrename : written.rename (temporary path) path with
        | error fault =>
          simp only [fileStep, hwrite, hrename]
          exact .unmoved hgrown hwrite
        | ok moved =>
          simp only [fileStep, hwrite, hrename]
          exact .moved hgrown hwrite hrename

/-- Where saving fails, all folders are kept, and all files but the temporary one. -/
theorem kept_of_error {e : BackendError} (h : Outcome path data files (.error e) files') :
    (∀ l, files.at? l = some .folder → files'.at? l = some .folder) ∧
      ∀ m, files'.place (temporary path) ≠ .ok m → files.SameFile files' m := by
  cases h with
  | unwritten grown => exact ⟨fun _ => grown.folder, fun m _ => grown.sameFile m⟩
  | unmoved grown write =>
    obtain ⟨l, name, hputs⟩ := write_eq_ok write
    refine ⟨fun _ hfolder => hputs.folder (grown.folder hfolder), fun m hm => ?_⟩
    have hne : m ≠ l ++ [name] := fun heq => hm (heq ▸ hputs.place_eq)
    exact (grown.sameFile m).trans (sameFile_of_at? (hputs.at_other hne nofun))

/-- Where saving succeeds, the temporary file is gone, and all files are kept but that and the one at
the path. -/
theorem kept_of_ok (h : Outcome path data files (.ok ()) files') :
    files'.has (temporary path) = false ∧ ∀ m, files'.place path ≠ .ok m →
      files'.place (temporary path) ≠ .ok m → files.SameFile files' m := by
  cases h with
  | @moved created written moved grown write rename =>
    obtain ⟨l, name, hwritten⟩ := write_eq_ok write
    have hlocate : written.locate (temporary path) = .ok (l ++ [name]) := by
      refine hwritten.place.locate (fun _ => hwritten.folder) ?_
      rw [hwritten.at_place]
      nofun
    obtain ⟨l', name', hmoved⟩ := rename_eq_ok hlocate hwritten.at_place rename
    have hother : l ++ [name] ≠ l' ++ [name'] := fun heq =>
      name_ne_of_temporary hmoved.place hwritten.place
        (List.singleton_inj.1 (List.append_inj_right' heq rfl))
    have hgone : files'.at? (l ++ [name]) = none := by
      rw [hmoved.view, if_neg hother, if_pos rfl]
    have hplace : files'.Place (temporary path) l name := by
      refine hwritten.place.of_folders (fun _ hfolder => hmoved.folder (hwritten.folder hfolder)) ?_
      rw [hgone]
      nofun
    refine ⟨by rw [has, hplace.locate_missing hgone], fun m hpath htemporary => ?_⟩
    have hpath : m ≠ l' ++ [name'] := fun heq => hpath (heq ▸ hmoved.place_eq)
    have htemporary : m ≠ l ++ [name] := fun heq => htemporary (heq ▸ hplace.place_eq)
    have hview : files'.at? m = created.at? m := by
      rw [hmoved.at_other hpath fun heq => htemporary (Option.some.inj heq).symm,
        hwritten.at_other htemporary nofun]
    exact (grown.sameFile m).trans (sameFile_of_at? hview)

/-- Saving either puts a snapshot of what is in memory at the path, with no other file new and no
temporary file left, or fails and changes no file but the temporary one, so that the earlier snapshot is
still there. What is in memory stays in any case, and if it fits, it is what the snapshot restores. -/
theorem save_safe {path : Path} {name : String} (hnamed : path.Names name)
    (listing : String → Listing (Bytes × Bytes)) (clock : Int) (st : Store) :
    let saved := st.save listing clock (some path)
    let files := saved.2.files
    temporary path ≠ path ∧ saved.2.memory = st.memory ∧
      (saved.1 = .ok () →
        (∃ s : Snapshot, files.read path = .ok s.encode ∧ s.Lists st.memory ∧
          s.createdMillis = millisOf clock ∧ (Fits st.memory → restore s.encode = .ok st.memory)) ∧
        files.has (temporary path) = false ∧
        ∀ m, files.place path ≠ .ok m → files.place (temporary path) ≠ .ok m →
          st.files.SameFile files m) ∧
      ∀ e, saved.1 = .error e →
        (∀ m, files.place (temporary path) ≠ .ok m → st.files.SameFile files m) ∧
        ∀ old, st.files.read path = .ok old → files.read path = .ok old := by
  have houtcome := outcome_replaceFile path (ofContents listing (millisOf clock) st.memory).encode
    st.files
  cases hsave : save listing clock (some path) st.memory st.files with
  | mk r files =>
    rw [← save_some, hsave] at houtcome
    have hsaved : st.save listing clock (some path) = (r, { st with files }) := by
      rw [Store.save, hsave]
    rw [hsaved]
    refine ⟨temporary_ne hnamed, rfl, fun hok => ?_, fun e herror => ?_⟩
    · obtain rfl : r = .ok () := hok
      obtain ⟨s, hlists, htime, hread⟩ := read_of_save hsave
      exact ⟨⟨s, hread, hlists, htime, restore_encode_self hlists⟩, kept_of_ok houtcome⟩
    · obtain rfl : r = .error e := herror
      obtain ⟨hfolders, hkept⟩ := kept_of_error houtcome
      refine ⟨hkept, fun old hold => read_of_kept hold hfolders fun l name place => hkept _ ?_⟩
      -- The file at the path does not stand at the place of the temporary one.
      intro htemporary
      obtain ⟨l', name', heq, hplace⟩ := place_of_ok htemporary
      have hname : name = name' := List.singleton_inj.1 (List.append_inj_right' heq rfl)
      exact name_ne_of_temporary place hplace hname.symm

/-- A backend with two users, whose file stands beside another one. -/
def beside : Store where
  memory := ⟨[("keys", .empty), ("users", ⟨[([1], [7]), ([2], [8, 9])], by decide⟩)], by decide⟩
  files := ⟨[("notes.txt", .file [1]), ("vault.bin", .file [])]⟩

/-- The file beside is kept, whether the snapshot can be written or its folder is a file. What has been
written restores the users, although they were listed the other way round. -/
theorem save_safe_beside :
    let saved := beside.save (fun _ => .descending) 0 (some ⟨["vault.bin"]⟩)
    let failed := beside.save (fun _ => .descending) 0 (some ⟨["notes.txt", "vault.bin"]⟩)
    saved.1 = .ok () ∧
      (∃ data, saved.2.files.read ⟨["vault.bin"]⟩ = .ok data ∧ restore data = .ok beside.memory) ∧
      saved.2.files.has ⟨["vault.bin.tmp"]⟩ = false ∧
      saved.2.files.dataAt ["notes.txt"] = .ok [1] ∧
      failed.1 = .error (.io .notFolder) ∧ failed.2.files.dataAt ["notes.txt"] = .ok [1] := by
  intro saved failed
  have hok : saved.1 = .ok () := rfl
  have herror : failed.1 = .error (.io .notFolder) := rfl
  have hnamed : Path.Names ⟨["vault.bin"]⟩ "vault.bin" := ⟨rfl, by decide⟩
  have hinner : Path.Names ⟨["notes.txt", "vault.bin"]⟩ "vault.bin" := ⟨rfl, by decide⟩
  obtain ⟨-, -, hsaved, -⟩ := save_safe hnamed (fun _ => .descending) 0 beside
  obtain ⟨-, -, -, hfailed⟩ := save_safe hinner (fun _ => .descending) 0 beside
  obtain ⟨⟨s, hread, -, -, hrestore⟩, hgone, hkept⟩ := hsaved hok
  have hfits : Fits beside.memory := ⟨by decide, by decide⟩
  have hname : temporary ⟨["vault.bin"]⟩ = ⟨["vault.bin.tmp"]⟩ := rfl
  rw [hname] at hgone hkept
  refine ⟨hok, ⟨s.encode, hread, hrestore hfits⟩, hgone, ?_, herror, ?_⟩
  · have hpath : saved.2.files.place ⟨["vault.bin"]⟩ = .ok ["vault.bin"] := rfl
    have htemporary : saved.2.files.place ⟨["vault.bin.tmp"]⟩ = .ok ["vault.bin.tmp"] := rfl
    refine (hkept ["notes.txt"] (fun h => ?_) (fun h => ?_) [1]).2 rfl
    · exact absurd (Except.ok.inj (hpath.symm.trans h)) (by decide)
    · exact absurd (Except.ok.inj (htemporary.symm.trans h)) (by decide)
  · exact ((hfailed _ herror).1 ["notes.txt"] nofun [1]).2 rfl

end AuthVault.Snapshot
