import AuthVault.Proofs.Backend.Contents
import AuthVault.Proofs.Snapshot.Decoding
import AuthVault.Proofs.Snapshot.Storage

/-!
# Loading takes over everything or nothing

Whatever a file holds, loading it either fails and leaves the memory as it was, or puts in place of the
memory exactly the namespaces of the snapshot that the file begins with, a later one in place of an
earlier one of its name (`restore_cases`, `standsFor_contents`). In particular the bytes written of
contents restore these contents with anything behind them, and are refused if a part is cut off or
the version is another one (`load_whole`).
-/

namespace AuthVault

open Contents

namespace Snapshot

variable {s : Snapshot} {c : Contents} {data : Bytes}

/-! ### What a snapshot stands for -/

/-- Contents are those that a snapshot lists: of two namespaces of one name the later one counts, and
so it does of two entries of one key. -/
structure StandsFor (s : Snapshot) (c : Contents) : Prop where
  has_iff : ∀ name, c.Has name ↔ ∃ entries, (name, entries) ∈ s.spaces
  value?_eq : ∀ name key, c.value? name key
    = (s.spaces.reverse.lookup name).bind fun entries => entries.reverse.lookup key

theorem get?_contents (s : Snapshot) (name : String) :
    s.contents.get? name = (s.spaces.reverse.lookup name).map Dict.ofList := by
  rw [contents, Dict.get?_ofList, ← List.map_reverse, Dict.lookup_map]

theorem standsFor_contents (s : Snapshot) : s.StandsFor s.contents := by
  constructor
  · intro name
    rw [Has, get?_contents, ← Option.isSome_iff_exists, Option.isSome_map, Dict.lookup_isSome_iff,
      List.map_reverse, List.mem_reverse, List.mem_map]
    constructor
    · rintro ⟨space, hspace, rfl⟩
      exact ⟨space.2, hspace⟩
    · rintro ⟨entries, hspace⟩
      exact ⟨(name, entries), hspace, rfl⟩
  · intro name key
    rw [value?, get?_contents]
    cases s.spaces.reverse.lookup name with
    | none => rfl
    | some entries => exact Dict.get?_ofList entries key

/-! ### Restoring -/

/-- A byte string restores the contents of the snapshot that it begins with, if there is one and its
version is the current one, and is refused otherwise. -/
theorem restore_cases (data : Bytes) :
    (∃ s rest, Storable s ∧ data = s.encode ++ rest ∧ s.version = currentVersion ∧
      restore data = .ok s.contents) ∨
    (∀ s rest, Storable s → data = s.encode ++ rest → s.version ≠ currentVersion) ∧
      ∃ cause, restore data = .error (.corrupt cause) := by
  unfold restore
  cases hdecode : decode? data with
  | none =>
    refine .inr ⟨fun s rest hs hdata => ?_, .undecodable, rfl⟩
    rw [decode?_eq_some_iff.2 ⟨hs, rest, hdata⟩] at hdecode
    contradiction
  | some s =>
    obtain ⟨hs, rest, hdata⟩ := decode?_eq_some_iff.1 hdecode
    by_cases hversion : s.version = currentVersion
    · exact .inl ⟨s, rest, hs, hdata, hversion, if_pos hversion⟩
    · refine .inr ⟨fun s' rest' hs' hdata' => ?_, .version s.version, if_neg hversion⟩
      rw [decode?_eq_some_iff.2 ⟨hs', rest', hdata'⟩] at hdecode
      exact Option.some.inj hdecode ▸ hversion

/-- Bytes that may be written of contents: a snapshot of them, in whatever order it lists the
entries. -/
def Written (c : Contents) (data : Bytes) : Prop := ∃ s : Snapshot, s.Lists c ∧ data = s.encode

/-- Bytes of a snapshot with another version. -/
def withVersion (version : Nat) (data : Bytes) : Bytes :=
  Bytes.littleEndian 4 version ++ data.drop 4

theorem withVersion_encode (s : Snapshot) (version : Nat) :
    withVersion version s.encode = { s with version }.encode := by
  have hlength : (Bytes.littleEndian 4 s.version).length = 4 := Bytes.length_littleEndian 4 _
  simp only [withVersion, encode, List.append_assoc]
  rw [List.drop_left' hlength]

section Written

variable (hfits : Fits c) (hdata : Written c data)
include hfits hdata

theorem restore_of_written (extra : Bytes) : restore (data ++ extra) = .ok c := by
  obtain ⟨s, hlists, rfl⟩ := hdata
  exact restore_encode hlists hfits extra

/-- Nothing is made of written bytes a part of which is missing at the end. -/
theorem restore_of_cut {front back : Bytes} (hcut : data = front ++ back) (hback : back ≠ []) :
    restore front = .error (.corrupt .undecodable) := by
  obtain ⟨s, hlists, hdata⟩ := hdata
  have hversion : s.version < UInt32.size := by rw [hlists.version]; decide
  have hwhole := hlists.reads hfits hversion
  rw [show ({ s with version := s.version } : Snapshot).encode = front ++ back from
    hdata.symm.trans hcut] at hwhole
  have hnone : decodeSnapshot front = none :=
    eq_none_of_cut exact_snapshot (fun _ hs => hs.reads) hwhole hback
  rw [restore, decode?, hnone]
  rfl

theorem restore_withVersion {version : Nat} (hlt : version < UInt32.size)
    (hne : version ≠ currentVersion) :
    restore (withVersion version data) = .error (.corrupt (.version version)) := by
  obtain ⟨s, hlists, rfl⟩ := hdata
  have hdecode : decode? (withVersion version s.encode)
      = some { s with version, createdMillis := wrapped s.createdMillis } := by
    have hreads := hlists.reads hfits hlt []
    rw [List.append_nil] at hreads
    rw [withVersion_encode, decode?, hreads]
    rfl
  rw [restore, hdecode]
  exact if_neg hne

end Written

/-! ### Loading -/

/-- Whatever the file at a path holds and whatever is in memory, loading takes over the whole of a
snapshot or leaves everything as it is. Bytes that saving writes of contents are taken over with any
bytes behind them, and refused if some are missing at the end or the version is another one. -/
theorem load_whole (path : Path) (st : Store) :
    (∀ data, st.files.read path = .ok data →
      (∃ s rest memory, Storable s ∧ data = s.encode ++ rest ∧ s.version = currentVersion ∧
        s.StandsFor memory ∧ st.load (some path) = (.ok (), { st with memory })) ∨
      (∀ s rest, Storable s → data = s.encode ++ rest → s.version ≠ currentVersion) ∧
        ∃ cause, st.load (some path) = (.error (.corrupt cause), st)) ∧
    (∀ c listing clock files files', save listing clock (some path) c files = (.ok (), files') →
      ∃ data, files'.read path = .ok data ∧ Written c data) ∧
    ∀ c data, Fits c → Written c data →
      (∀ front back, data = front ++ back → back ≠ [] → st.files.read path = .ok front →
        st.load (some path) = (.error (.corrupt .undecodable), st)) ∧
      (∀ extra, st.files.read path = .ok (data ++ extra) →
        st.load (some path) = (.ok (), { st with memory := c })) ∧
      ∀ version < UInt32.size, version ≠ currentVersion →
        st.files.read path = .ok (withVersion version data) →
          st.load (some path) = (.error (.corrupt (.version version)), st) := by
  refine ⟨fun data hread => ?_, fun c listing clock files files' hsave => ?_, fun c data hfits hdata =>
    ⟨fun front back hcut hback hread => ?_, fun extra hread => ?_,
      fun version hlt hne hread => ?_⟩⟩
  · rcases restore_cases data with ⟨s, rest, hs, hdata, hversion, hrestore⟩ | ⟨hno, cause, hrestore⟩
    · exact .inl ⟨s, rest, s.contents, hs, hdata, hversion, standsFor_contents s,
        Store.load_of_restore hread hrestore⟩
    · exact .inr ⟨hno, cause, Store.load_of_restore_error hread hrestore⟩
  · obtain ⟨s, hlists, -, hread⟩ := read_of_save hsave
    exact ⟨s.encode, hread, s, hlists, rfl⟩
  · exact Store.load_of_restore_error hread (restore_of_cut hfits hdata hcut hback)
  · exact Store.load_of_restore hread (restore_of_written hfits hdata extra)
  · exact Store.load_of_restore_error hread (restore_withVersion hfits hdata hlt hne)

/-- A backend with something in memory and a file of its own. -/
def bound (data : Bytes) : Store where
  memory := ⟨[("old", .empty)], by decide⟩
  files := (replaceFile ⟨["vault.bin"]⟩ data .empty).2

theorem read_bound (data : Bytes) : (bound data).files.read ⟨["vault.bin"]⟩ = .ok data := by
  have hreplaced : replaceFile ⟨["vault.bin"]⟩ data .empty = (.ok (), (bound data).files) := rfl
  exact read_of_replaceFile hreplaced

/-- An empty file, bytes with one too many, bytes of another version, and a snapshot that lists a
namespace twice. -/
theorem load_whole_bound :
    let path : Path := ⟨["vault.bin"]⟩
    let c : Contents := ⟨[("notes", ⟨[([2], [8])], by decide⟩)], by decide⟩
    let data := (ofContents (fun _ => .ascending) 0 c).encode
    let s : Snapshot :=
      ⟨currentVersion, 0, [("notes", [([1], [1])]), ("notes", [([2], [7]), ([2], [8])])]⟩
    (bound []).load (some path) = (.error (.corrupt .undecodable), bound []) ∧
      (bound (data ++ [0])).load (some path) = (.ok (), { bound (data ++ [0]) with memory := c }) ∧
      (bound (withVersion 99 data)).load (some path)
        = (.error (.corrupt (.version 99)), bound (withVersion 99 data)) ∧
      ∃ memory, (bound s.encode).load (some path) = (.ok (), { bound s.encode with memory }) ∧
        memory.value? "notes" [2] = some [8] ∧ memory.value? "notes" [1] = none ∧
        ¬ memory.Has "old" := by
  intro path c data s
  have hfits : Fits c := ⟨by decide, by decide⟩
  have hwritten : Written c data := ⟨_, lists_ofContents _ 0 c, rfl⟩
  have hs : s.Storable := ⟨by decide, by decide, by decide, by decide, by decide⟩
  refine ⟨?_, ?_, ?_, ?_⟩
  · obtain ⟨-, -, hof⟩ := load_whole path (bound [])
    exact (hof c data hfits hwritten).1 [] data rfl (by decide) (read_bound [])
  · obtain ⟨-, -, hof⟩ := load_whole path (bound (data ++ [0]))
    exact (hof c data hfits hwritten).2.1 [0] (read_bound _)
  · obtain ⟨-, -, hof⟩ := load_whole path (bound (withVersion 99 data))
    exact (hof c data hfits hwritten).2.2 99 (by decide) (by decide) (read_bound _)
  · obtain ⟨hany, -⟩ := load_whole path (bound s.encode)
    rcases hany s.encode (read_bound _) with ⟨s', rest, memory, hs', hdata, -, hstands, hload⟩ | ⟨hno, -⟩
    · have hsame : some s' = some s := by
        rw [← decode?_eq_some_iff.2 ⟨hs', rest, hdata⟩]
        exact decode?_eq_some_iff.2 ⟨hs, [], (List.append_nil _).symm⟩
      obtain rfl := Option.some.inj hsame
      refine ⟨memory, hload, hstands.value?_eq _ _, hstands.value?_eq _ _, fun hold => ?_⟩
      obtain ⟨entries, hmem⟩ := (hstands.has_iff "old").1 hold
      simp [s] at hmem
    · exact absurd rfl (hno s [] hs (List.append_nil _).symm)

end Snapshot

end AuthVault
