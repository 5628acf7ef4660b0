import AuthVault.Files.Tree

/-!
# What stands in a tree of files

The view of a tree is what stands at each location (`at?`): a folder, a file with its data, or nothing.
Putting a file or an empty folder at a free place changes the view there and nowhere else
(`at?_insert`), and so does taking a file away (`at?_erase`). Where folders stay folders, a path leads
where it led (`Place.locate`). Writing and moving a file both put one at a place (`Puts`), so it is read
at its path then (`read_of_write`, `read_of_rename`).
-/

namespace AuthVault

/-- What stands at a location, leaving aside what a folder holds. -/
inductive Standing
  | file (data : Bytes)
  | folder
  deriving DecidableEq

def FileNode.standing : FileNode → Standing
  | .file data => .file data
  | .folder _ => .folder

/-- Nothing stands below a file or an empty folder. -/
def FileNode.Bare : FileNode → Prop
  | .file _ => True
  | .folder entries => entries = []

theorem bare_file (data : Bytes) : (FileNode.file data).Bare := trivial

namespace FileTree

/-- What stands at a location. -/
def at? (t : FileTree) (l : Location) : Option Standing := (t.node? l).map FileNode.standing

variable {t t' : FileTree} {l m rest : Location} {name : String} {data : Bytes} {p : Path}
  {entries : List (String × FileNode)}

/-! ### The view -/

theorem at?_nil (t : FileTree) : t.at? [] = some .folder := rfl

theorem at?_of_none (h : t.entries.lookup name = none) (rest : Location) :
    t.at? (name :: rest) = none := by
  rw [at?, node?, h]
  rfl

theorem at?_of_file (h : t.entries.lookup name = some (.file data)) (rest : Location) :
    t.at? (name :: rest) = if rest = [] then some (.file data) else none := by
  rw [at?, node?, h]
  simp only
  split <;> rfl

theorem at?_of_folder (h : t.entries.lookup name = some (.folder entries)) (rest : Location) :
    t.at? (name :: rest) = at? ⟨entries⟩ rest := by
  rw [at?, node?, h]
  rfl

theorem at?_congr (h : t'.entries.lookup name = t.entries.lookup name) (rest : Location) :
    t'.at? (name :: rest) = t.at? (name :: rest) := by
  rw [at?, at?, node?, node?, h]

theorem at?_of_node? (h : t.node? l = some (.folder entries)) : t.at? l = some .folder := by
  rw [at?, h]
  rfl

theorem node?_of_at? (h : t.at? l = some .folder) :
    ∃ entries, t.node? l = some (.folder entries) := by
  obtain ⟨n, hn, hstanding⟩ := Option.map_eq_some_iff.1 h
  cases n with
  | file data => contradiction
  | folder entries => exact ⟨entries, hn⟩

/-- What stands in a folder under a name. -/
theorem at?_concat (h : t.node? l = some (.folder entries)) (name : String) :
    t.at? (l ++ [name]) = (entries.lookup name).map FileNode.standing := by
  induction l generalizing t with
  | nil =>
    obtain rfl : t.entries = entries := FileNode.folder.inj (Option.some.inj h)
    rw [List.nil_append, at?, node?]
    rcases t.entries.lookup name with _ | data | entries <;> rfl
  | cons head rest ih =>
    rw [node?] at h
    rcases hfind : t.entries.lookup head with _ | data | inner
    all_goals simp only [hfind] at h
    · contradiction
    · split at h
      · cases h
      · contradiction
    · rw [List.cons_append, at?_of_folder hfind]
      exact ih h

/-- Nothing stands below what is no folder. -/
theorem at?_below (h : t.at? [name] ≠ some .folder) (hrest : rest ≠ []) :
    t.at? (name :: rest) = none := by
  rcases hfind : t.entries.lookup name with _ | data | entries
  · exact at?_of_none hfind rest
  · rw [at?_of_file hfind, if_neg hrest]
  · exact absurd (at?_of_folder hfind []) h

theorem at?_below_bare (h : ∀ n, t.entries.lookup name = some n → n.Bare) (hrest : rest ≠ []) :
    t.at? (name :: rest) = none := by
  rcases hfind : t.entries.lookup name with _ | data | entries
  · exact at?_of_none hfind rest
  · rw [at?_of_file hfind, if_neg hrest]
  · obtain rfl : entries = [] := h _ hfind
    obtain ⟨head, below, rfl⟩ := List.exists_cons_of_ne_nil hrest
    rw [at?_of_folder hfind, at?_of_none rfl]

/-- A location below a name leads through a folder. -/
theorem exists_folder (h : t.at? (name :: rest) ≠ none) (hrest : rest ≠ []) :
    ∃ entries, t.entries.lookup name = some (.folder entries) := by
  rcases hfind : t.entries.lookup name with _ | data | entries
  · exact absurd (at?_of_none hfind rest) h
  · rw [at?_of_file hfind, if_neg hrest] at h
    exact absurd rfl h
  · exact ⟨entries, rfl⟩

theorem exists_folder_of_folder (h : t.at? (name :: rest) = some .folder) :
    ∃ entries, t.entries.lookup name = some (.folder entries) := by
  rcases hfind : t.entries.lookup name with _ | data | entries
  · rw [at?_of_none hfind] at h
    contradiction
  · rw [at?_of_file hfind] at h
    split at h
    · cases h
    · contradiction
  · exact ⟨entries, rfl⟩

/-! ### Changes -/

/-- A change of an entry that is no folder, to something bare, is seen at its name only. -/
theorem at?_of_entry {x : Option FileNode} (hfree : t.at? [name] ≠ some .folder)
    (hbare : ∀ n, x = some n → n.Bare)
    (hentries : ∀ n, t'.entries.lookup n = if n = name then x else t.entries.lookup n)
    (m : Location) : t'.at? m = if m = [name] then x.map FileNode.standing else t.at? m := by
  have hname : t'.at? [name] = x.map FileNode.standing := by
    rw [← List.nil_append [name], at?_concat rfl, hentries, if_pos rfl]
  rcases m with _ | ⟨head, below⟩
  · rw [if_neg (List.cons_ne_nil _ _).symm, at?_nil, at?_nil]
  by_cases hhead : head = name
  · subst hhead
    by_cases hbelow : below = []
    · rw [hbelow, hname, if_pos rfl]
    · rw [if_neg fun heq => hbelow (List.cons.inj heq).2, at?_below hfree hbelow]
      refine at?_below_bare (fun n hn => hbare n ?_) hbelow
      rw [← hn, hentries, if_pos rfl]
  · rw [if_neg fun heq => hhead (List.cons.inj heq).1]
    exact at?_congr (by rw [hentries, if_neg hhead]) below

/-- A change in a folder is seen below its name. -/
theorem at?_of_inner {inner : FileTree} {v : Option Standing}
    (hfind : t.entries.lookup name = some (.folder entries))
    (hinner : ∀ m, inner.at? m = if m = rest then v else at? ⟨entries⟩ m) (m : Location) :
    at? ⟨Dict.insertEntry name (.folder inner.entries) t.entries⟩ m
      = if m = name :: rest then v else t.at? m := by
  rcases m with _ | ⟨head, below⟩
  · rw [if_neg (List.cons_ne_nil _ _).symm, at?_nil, at?_nil]
  by_cases hhead : head = name
  · subst hhead
    rw [at?_of_folder (by rw [Dict.lookup_insertEntry, if_pos rfl]), at?_of_folder hfind]
    refine (hinner below).trans ?_
    simp only [List.cons.injEq, true_and]
  · rw [if_neg fun heq => hhead (List.cons.inj heq).1]
    exact at?_congr (by rw [Dict.lookup_insertEntry, if_neg hhead]) below

/-- A file or an empty folder that is put at a free place in a folder stands there, and all else
stands as before. -/
theorem at?_insert {n : FileNode} (hn : n.Bare) (hl : l ≠ [])
    (hparent : t.at? l.dropLast = some .folder) (hfree : t.at? l ≠ some .folder) (m : Location) :
    (t.insert n l).at? m = if m = l then some n.standing else t.at? m := by
  induction l generalizing t m with
  | nil => exact absurd rfl hl
  | cons name rest ih =>
    by_cases hrest : rest = []
    · subst hrest
      rw [insert, if_pos rfl]
      exact at?_of_entry hfree (fun _ h => Option.some.inj h ▸ hn)
        (fun head => Dict.lookup_insertEntry name head _ _) m
    · rw [List.dropLast_cons_of_ne_nil hrest] at hparent
      obtain ⟨entries, hentries⟩ := exists_folder_of_folder hparent
      rw [at?_of_folder hentries] at hparent hfree
      rw [insert, if_neg hrest, hentries]
      exact at?_of_inner hentries (ih hrest hparent hfree) m

/-- Where a file is taken away, nothing is left, and all else stands as before. -/
theorem at?_erase (hfile : t.at? l = some (.file data)) (m : Location) :
    (t.erase l).at? m = if m = l then none else t.at? m := by
  induction l generalizing t m with
  | nil => cases hfile
  | cons name rest ih =>
    by_cases hrest : rest = []
    · subst hrest
      rw [erase, if_pos rfl]
      refine at?_of_entry (x := none) ?_ nofun (fun head => Dict.lookup_filter_ne name head _) m
      rw [hfile]
      nofun
    · obtain ⟨entries, hentries⟩ :=
        exists_folder (by rw [hfile]; exact Option.some_ne_none _) hrest
      rw [at?_of_folder hentries] at hfile
      rw [erase, if_neg hrest, hentries]
      exact at?_of_inner hentries (ih hfile) m

/-! ### Paths -/

/-- A piece is followed from a folder only. -/
theorem at?_of_enter {piece : String} (h : t.enter l piece = .ok m) : t.at? l = some .folder := by
  unfold enter at h
  split at h
  · next entries hnode => exact at?_of_node? hnode
  · contradiction

/-- A step leads where it led, from a folder to where something stands. -/
theorem enter_of_folders {piece : String} (h : t.enter l piece = .ok m)
    (hl : t'.at? l = some .folder) (hm : t'.at? m ≠ none) : t'.enter l piece = .ok m := by
  obtain ⟨entries, hnode⟩ := node?_of_at? (at?_of_enter h)
  obtain ⟨entries', hnode'⟩ := node?_of_at? hl
  simp only [enter, hnode] at h
  simp only [enter, hnode']
  by_cases hidle : Path.isIdle piece = true
  · rwa [if_pos hidle] at h ⊢
  by_cases hback : piece = Path.back
  · rwa [if_neg hidle, if_pos hback] at h ⊢
  by_cases hlong : Path.nameLimit < piece.utf8ByteSize
  · rwa [if_neg hidle, if_neg hback, if_pos hlong] at h ⊢
  rw [if_neg hidle, if_neg hback, if_neg hlong] at h ⊢
  split at h
  · contradiction
  · rw [← Except.ok.inj h, at?_concat hnode'] at hm
    rw [if_neg fun hnone => hm (by rw [Option.isNone_iff_eq_none.1 hnone]; rfl)]
    exact h

/-- The way to a folder leads there where folders stay folders. -/
theorem follow_of_folders {pieces : List String} (h : t.follow l pieces = .ok m)
    (hm : t.at? m = some .folder)
    (hfolders : ∀ l, t.at? l = some .folder → t'.at? l = some .folder) :
    t'.follow l pieces = .ok m := by
  induction pieces generalizing l with
  | nil => exact h
  | cons piece rest ih =>
    rw [follow] at h ⊢
    cases henter : t.enter l piece with
    | error fault => rw [henter] at h; contradiction
    | ok next =>
      simp only [henter] at h
      have hnext : t.at? next = some .folder := by
        cases rest with
        | nil => rwa [Except.ok.inj h]
        | cons piece' rest =>
          rw [follow] at h
          cases henter' : t.enter next piece' with
          | error fault => rw [henter'] at h; contradiction
          | ok _ => exact at?_of_enter henter'
      rw [enter_of_folders henter (hfolders l (at?_of_enter henter))
        (by rw [hfolders next hnext]; exact Option.some_ne_none _)]
      exact ih h

theorem follow_concat {pieces : List String} (h : t.follow l pieces = .ok m) (piece : String) :
    t.follow l (pieces ++ [piece]) = t.enter m piece := by
  induction pieces generalizing l with
  | nil =>
    rw [Except.ok.inj h, List.nil_append, follow]
    cases t.enter m piece <;> rfl
  | cons head rest ih =>
    rw [follow] at h
    rw [List.cons_append, follow]
    cases henter : t.enter l head with
    | error fault => rw [henter] at h; contradiction
    | ok next =>
      simp only [henter] at h
      exact ih h

/-- A place for a file at a path: a name in a folder that is no folder itself. -/
structure Place (t : FileTree) (p : Path) (l : Location) (name : String) : Prop where
  usable : p.isUsable = true
  pieces : p.pieces = p.pieces.dropLast ++ [name]
  follow : t.follow [] p.pieces.dropLast = .ok l
  folder : t.at? l = some .folder
  proper : ¬ (Path.isIdle name = true ∨ name = Path.back)
  short : ¬ Path.nameLimit < name.utf8ByteSize
  free : t.at? (l ++ [name]) ≠ some .folder

theorem place_of_ok (h : t.place p = .ok m) : ∃ l name, m = l ++ [name] ∧ t.Place p l name := by
  unfold place at h
  split at h
  · contradiction
  next name hlast =>
  obtain ⟨front, hfront⟩ := List.getLast?_eq_some_iff.1 hlast
  split at h
  · contradiction
  next husable =>
  split at h
  · contradiction
  next l hfollow =>
  split at h
  · next entries hnode =>
    split at h
    · contradiction
    next hproper =>
    split at h
    · contradiction
    next hshort =>
    split at h
    · contradiction
    next hfree =>
    refine ⟨l, name, (Except.ok.inj h).symm, by simpa using husable,
      by rw [hfront, List.dropLast_concat], hfollow, at?_of_node? hnode, hproper, hshort,
      fun hfolder => ?_⟩
    rw [at?_concat hnode] at hfolder
    obtain ⟨n, hn, hstanding⟩ := Option.map_eq_some_iff.1 hfolder
    cases n with
    | file data => contradiction
    | folder entries => exact hfree entries hn
  · contradiction

theorem dataAt_eq_ok_iff : t.dataAt l = .ok data ↔ t.at? l = some (.file data) := by
  rw [dataAt, at?]
  rcases t.node? l with _ | d | entries
  · exact ⟨nofun, nofun⟩
  · exact ⟨fun h => congrArg _ (congrArg _ (Except.ok.inj h)),
      fun h => congrArg _ (Standing.file.inj (Option.some.inj h))⟩
  · exact ⟨nofun, nofun⟩

namespace Place

/-- A path leads to its place once something is there, where folders stay folders. -/
theorem locate (h : t.Place p l name)
    (hfolders : ∀ l, t.at? l = some .folder → t'.at? l = some .folder)
    (hthere : t'.at? (l ++ [name]) ≠ none) : t'.locate p = .ok (l ++ [name]) := by
  have hfront := follow_of_folders h.follow h.folder hfolders
  obtain ⟨entries, hnode⟩ := node?_of_at? (hfolders l h.folder)
  obtain ⟨hidle, hback⟩ := not_or.1 h.proper
  rw [FileTree.locate, if_pos h.usable, h.pieces, follow_concat hfront]
  rw [at?_concat hnode] at hthere
  simp only [enter, hnode]
  rw [if_neg hidle, if_neg hback, if_neg h.short,
    if_neg fun hnone => hthere (by rw [Option.isNone_iff_eq_none.1 hnone]; rfl)]

/-- A file that stands at a place is read at the path. -/
theorem read (h : t.Place p l name)
    (hfolders : ∀ l, t.at? l = some .folder → t'.at? l = some .folder)
    (hfile : t'.at? (l ++ [name]) = some (.file data)) : t'.read p = .ok data := by
  rw [FileTree.read, h.locate hfolders (by rw [hfile]; exact Option.some_ne_none _)]
  exact dataAt_eq_ok_iff.2 hfile

end Place

/-! ### Files written and moved -/

/-- A file is put at a place, and taken away where it stood before, if it stood anywhere. -/
structure Puts (t t' : FileTree) (p : Path) (data : Bytes) (source : Option Location) (l : Location)
    (name : String) : Prop where
  place : t.Place p l name
  at_source : ∀ s ∈ source, t.at? s = some (.file data)
  view : ∀ m, t'.at? m
    = if m = l ++ [name] then some (.file data) else if source = some m then none else t.at? m

namespace Puts

variable {source : Option Location}

theorem at_place (h : t.Puts t' p data source l name) :
    t'.at? (l ++ [name]) = some (.file data) := by
  rw [h.view, if_pos rfl]

theorem at_other (h : t.Puts t' p data source l name) (hplace : m ≠ l ++ [name])
    (hsource : source ≠ some m) : t'.at? m = t.at? m := by
  rw [h.view, if_neg hplace, if_neg hsource]

/-- Folders stay, since what comes to stand at the place and what is taken away are files. -/
theorem folder (h : t.Puts t' p data source l name) (hm : t.at? m = some .folder) :
    t'.at? m = some .folder := by
  rw [h.at_other (fun heq => h.place.free (heq ▸ hm)) fun heq => ?_, hm]
  have hfile := h.at_source m heq
  rw [hm] at hfile
  cases hfile

theorem read (h : t.Puts t' p data source l name) : t'.read p = .ok data :=
  h.place.read (fun _ => h.folder) h.at_place

end Puts

theorem write_eq_ok (h : t.write p data = .ok t') : ∃ l name, t.Puts t' p data none l name := by
  unfold write at h
  cases hplace : t.place p with
  | error fault => rw [hplace] at h; contradiction
  | ok m =>
    rw [hplace] at h
    obtain ⟨l, name, rfl, place⟩ := place_of_ok hplace
    obtain rfl : t.insert (.file data) (l ++ [name]) = t' := Except.ok.inj h
    have hfolder : t.at? (l ++ [name]).dropLast = some .folder := by
      rw [List.dropLast_concat]
      exact place.folder
    exact ⟨l, name, place, nofun, at?_insert (bare_file data) (by simp) hfolder place.free⟩

theorem rename_eq_ok {source target : Path} {s : Location} (hlocate : t.locate source = .ok s)
    (hfile : t.at? s = some (.file data)) (h : t.rename source target = .ok t') :
    ∃ l name, t.Puts t' target data (some s) l name := by
  unfold rename at h
  simp only [hlocate, dataAt_eq_ok_iff.2 hfile, bind, Except.bind] at h
  cases hplace : t.place target with
  | error fault => rw [hplace] at h; contradiction
  | ok m =>
    rw [hplace] at h
    obtain ⟨l, name, rfl, place⟩ := place_of_ok hplace
    obtain rfl : (t.erase s).insert (.file data) (l ++ [name]) = t' := Except.ok.inj h
    have herase := at?_erase hfile
    -- The folder is as before, since what is taken away is a file.
    have hne : l ≠ s := fun heq => by
      have hfolder := place.folder
      rw [heq, hfile] at hfolder
      cases hfolder
    have hfolder : (t.erase s).at? (l ++ [name]).dropLast = some .folder := by
      rw [List.dropLast_concat, herase, if_neg hne]
      exact place.folder
    have hfree : (t.erase s).at? (l ++ [name]) ≠ some .folder := by
      rw [herase]
      split
      · nofun
      · exact place.free
    refine ⟨l, name, place, fun _ heq => Option.some.inj heq ▸ hfile, fun m => ?_⟩
    rw [at?_insert (bare_file data) (by simp) hfolder hfree, herase]
    simp only [Option.some.injEq, eq_comm (a := s)]
    rfl

theorem read_of_write (h : t.write p data = .ok t') : t'.read p = .ok data := by
  obtain ⟨l, name, hputs⟩ := write_eq_ok h
  exact hputs.read

theorem read_of_rename {source target : Path} (hread : t.read source = .ok data)
    (h : t.rename source target = .ok t') : t'.read target = .ok data := by
  unfold read at hread
  cases hlocate : t.locate source with
  | error fault => rw [hlocate] at hread; contradiction
  | ok s =>
    simp only [hlocate] at hread
    obtain ⟨l, name, hputs⟩ := rename_eq_ok hlocate (dataAt_eq_ok_iff.1 hread) h
    exact hputs.read

end FileTree

end AuthVault
