import AuthVault.Proofs.Files.Tree

/-!
# Creating folders

Creating folders adds folders where nothing stood and changes nothing else, however far it comes
(`grown_createFolders`, an induction on the pieces of the path). So all files stay as they are, and
what could be read at a path is still read there (`read_of_kept`): a file that is read stands at a
place for a file (`place_of_read`), and the way there leads through folders.
-/

namespace AuthVault.FileTree

variable {t t' t'' : FileTree} {l m : Location} {name piece : String} {data : Bytes} {p : Path}

/-! ### Places -/

theorem follow_concat_eq_ok {pieces : List String} (h : t.follow l (pieces ++ [piece]) = .ok m) :
    ∃ k, t.follow l pieces = .ok k ∧ t.enter k piece = .ok m := by
  induction pieces generalizing l with
  | nil =>
    rw [List.nil_append, follow] at h
    cases henter : t.enter l piece with
    | error fault => rw [henter] at h; contradiction
    | ok k =>
      rw [henter] at h
      exact ⟨l, rfl, henter.trans h⟩
  | cons head rest ih =>
    rw [List.cons_append, follow] at h
    rw [follow]
    cases henter : t.enter l head with
    | error fault => rw [henter] at h; contradiction
    | ok next =>
      simp only [henter] at h
      exact ih h

/-- What stands in a folder stands in a folder of the tree. -/
theorem at?_dropLast (h : t.at? l = some .folder) : t.at? l.dropLast = some .folder := by
  induction l generalizing t with
  | nil => exact h
  | cons head rest ih =>
    by_cases hrest : rest = []
    · rw [hrest]
      exact at?_nil t
    · obtain ⟨entries, hentries⟩ := exists_folder_of_folder h
      rw [List.dropLast_cons_of_ne_nil hrest, at?_of_folder hentries]
      rw [at?_of_folder hentries] at h
      exact ih h

/-- A path at which a file is read ends in a name, and the file stands at its place. -/
theorem place_of_read (h : t.read p = .ok data) :
    ∃ l name, t.Place p l name ∧ t.at? (l ++ [name]) = some (.file data) := by
  unfold read at h
  cases hlocate : t.locate p with
  | error fault => rw [hlocate] at h; contradiction
  | ok m =>
    rw [hlocate] at h
    have hfile : t.at? m = some (.file data) := dataAt_eq_ok_iff.1 h
    unfold locate at hlocate
    split at hlocate
    · next husable =>
      rcases p.pieces.eq_nil_or_concat with hnil | ⟨front, name, hpieces⟩
      · rw [hnil] at hlocate
        rw [← Except.ok.inj hlocate] at hfile
        cases hfile
      · rw [List.concat_eq_append] at hpieces
        rw [hpieces] at hlocate
        obtain ⟨l, hfollow, henter⟩ := follow_concat_eq_ok hlocate
        have hfolder := at?_of_enter henter
        obtain ⟨entries, hnode⟩ := node?_of_at? hfolder
        simp only [enter, hnode] at henter
        -- The way leads to a file, so its last piece neither stays in the folder nor leads back.
        split at henter
        · rw [← Except.ok.inj henter, hfolder] at hfile
          cases hfile
        next hidle =>
        split at henter
        · rw [← Except.ok.inj henter, at?_dropLast hfolder] at hfile
          cases hfile
        next hback =>
        split at henter
        · contradiction
        next hshort =>
        split at henter
        · contradiction
        rw [← Except.ok.inj henter] at hfile
        refine ⟨l, name, ⟨husable, ?_, ?_, hfolder, not_or.2 ⟨hidle, hback⟩, hshort, ?_⟩, hfile⟩
        · rw [hpieces, List.dropLast_concat]
        · rw [hpieces, List.dropLast_concat]
          exact hfollow
        · intro hfolder
          rw [hfile] at hfolder
          cases hfolder
    · contradiction

namespace Place

/-- A place for a file stays one where folders stay folders and no folder comes to stand there. -/
theorem of_folders (h : t.Place p l name)
    (hfolders : ∀ l, t.at? l = some .folder → t'.at? l = some .folder)
    (hfree : t'.at? (l ++ [name]) ≠ some .folder) : t'.Place p l name :=
  ⟨h.usable, h.pieces, follow_of_folders h.follow h.folder hfolders, hfolders l h.folder, h.proper,
    h.short, hfree⟩

theorem place_eq (h : t.Place p l name) : t.place p = .ok (l ++ [name]) := by
  obtain ⟨entries, hnode⟩ := node?_of_at? h.folder
  have hlast : p.pieces.getLast? = some name := by
    rw [h.pieces]
    exact List.getLast?_concat
  have hfree := h.free
  rw [at?_concat hnode] at hfree
  simp only [FileTree.place, hlast, h.usable, h.follow, hnode]
  rw [if_neg (by decide), if_neg h.proper, if_neg h.short]
  split
  · next hfind =>
    rw [hfind] at hfree
    exact absurd rfl hfree
  · rfl

theorem locate_missing (h : t.Place p l name) (hnone : t.at? (l ++ [name]) = none) :
    t.locate p = .error .missing := by
  obtain ⟨entries, hnode⟩ := node?_of_at? h.folder
  obtain ⟨hidle, hback⟩ := not_or.1 h.proper
  rw [at?_concat hnode, Option.map_eq_none_iff] at hnone
  rw [FileTree.locate, if_pos h.usable, h.pieces, follow_concat h.follow]
  simp only [enter, hnode]
  rw [if_neg hidle, if_neg hback, if_neg h.short, hnone]
  rfl

end Place

/-- The place of a file that has been put there. -/
theorem Puts.place_eq {source : Option Location} (h : t.Puts t' p data source l name) :
    t'.place p = .ok (l ++ [name]) := by
  refine (h.place.of_folders (fun _ => h.folder) ?_).place_eq
  rw [h.at_place]
  nofun

/-! ### Trees with the same files -/

/-- At a location there is the same file in two trees, or there is none in either. -/
def SameFile (t t' : FileTree) (m : Location) : Prop :=
  ∀ data, t'.dataAt m = .ok data ↔ t.dataAt m = .ok data

theorem sameFile_of_at? (h : t'.at? m = t.at? m) : t.SameFile t' m := by
  intro data
  rw [dataAt_eq_ok_iff, dataAt_eq_ok_iff, h]

theorem SameFile.trans (h : t.SameFile t' m) (h' : t'.SameFile t'' m) : t.SameFile t'' m :=
  fun data => (h' data).trans (h data)

/-- What could be read at a path is read there where folders stay folders and the file is the same. -/
theorem read_of_kept (hread : t.read p = .ok data)
    (hfolders : ∀ l, t.at? l = some .folder → t'.at? l = some .folder)
    (hsame : ∀ l name, t.Place p l name → t.SameFile t' (l ++ [name])) : t'.read p = .ok data := by
  obtain ⟨l, name, place, hfile⟩ := place_of_read hread
  exact place.read hfolders (dataAt_eq_ok_iff.1
    ((hsame l name place data).2 (dataAt_eq_ok_iff.2 hfile)))

/-! ### Trees with more folders -/

/-- Folders may stand where nothing stood; all else stands as before. -/
def Grown (t t' : FileTree) : Prop :=
  ∀ m, t'.at? m = t.at? m ∨ t.at? m = none ∧ t'.at? m = some .folder

namespace Grown

theorem refl (t : FileTree) : Grown t t := fun _ => .inl rfl

theorem trans (h : Grown t t') (h' : Grown t' t'') : Grown t t'' := by
  intro m
  rcases h' m with heq | ⟨hnone, hfolder⟩
  · rw [heq]
    exact h m
  · rcases h m with heq | ⟨-, hfolder'⟩
    · exact .inr ⟨heq ▸ hnone, hfolder⟩
    · rw [hnone] at hfolder'
      contradiction

theorem folder (h : Grown t t') (hl : t.at? l = some .folder) : t'.at? l = some .folder := by
  rcases h l with heq | ⟨hnone, -⟩
  · rw [heq, hl]
  · rw [hl] at hnone
    contradiction

theorem sameFile (h : Grown t t') (m : Location) : t.SameFile t' m := by
  rcases h m with heq | ⟨hnone, hfolder⟩
  · exact sameFile_of_at? heq
  · intro data
    rw [dataAt_eq_ok_iff, dataAt_eq_ok_iff, hnone, hfolder]
    exact ⟨nofun, nofun⟩

end Grown

theorem grown_insert (hfolder : t.at? l = some .folder) (hnone : t.at? (l ++ [name]) = none) :
    Grown t (t.insert (.folder []) (l ++ [name])) := by
  intro m
  have hbare : (FileNode.folder []).Bare := rfl
  rw [at?_insert hbare (by simp) (by rw [List.dropLast_concat]; exact hfolder) (by rw [hnone]; nofun)]
  by_cases hm : m = l ++ [name]
  · rw [if_pos hm, hm]
    exact .inr ⟨hnone, rfl⟩
  · rw [if_neg hm]
    exact .inl rfl

/-- Where a step finds nothing, it starts from a folder in which nothing stands under the name. -/
theorem at?_of_enter_missing (h : t.enter l piece = .error .missing) :
    t.at? l = some .folder ∧ t.at? (l ++ [piece]) = none := by
  unfold enter at h
  split at h
  · next entries hnode =>
    split at h
    · contradiction
    split at h
    · contradiction
    split at h
    · cases h
    split at h
    · next hnone =>
      refine ⟨at?_of_node? hnode, ?_⟩
      rw [at?_concat hnode, Option.isNone_iff_eq_none.1 hnone]
      rfl
    · contradiction
  · cases h

theorem grown_createFrom (t : FileTree) (l : Location) (pieces : List String) :
    Grown t (t.createFrom l pieces).2 := by
  induction pieces generalizing t l with
  | nil =>
    rw [createFrom]
    split <;> exact .refl t
  | cons piece rest ih =>
    rw [createFrom]
    split
    · exact ih t _
    · next henter =>
      obtain ⟨hfolder, hnone⟩ := at?_of_enter_missing henter
      exact (grown_insert hfolder hnone).trans (ih _ _)
    · exact .refl t

theorem grown_createFolders (t : FileTree) (p : Path) : Grown t (t.createFolders p).2 := by
  unfold createFolders
  split
  · exact grown_createFrom t [] p.pieces
  · exact .refl t

end AuthVault.FileTree
