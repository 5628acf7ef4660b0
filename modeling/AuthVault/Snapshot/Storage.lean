import AuthVault.Files.Tree
import AuthVault.Record
import AuthVault.Snapshot.Codec

/-!
# Snapshots in files

A backend may be bound to a file. Saving writes a snapshot to a temporary file beside it and renames
that, so that the file holds a whole snapshot at any time; loading replaces everything in memory.
-/

namespace AuthVault

/-- Where the snapshots of a backend are kept, and how often they are written. -/
structure PersistenceSettings where
  path : Option String
  intervalMillis : Nat
  deriving DecidableEq

namespace PersistenceSettings

structure Draft where
  path : Option (Option String) := none
  intervalMillis : Option Nat := none

/-- How settings are read: without a path nothing is kept, and the interval is five seconds. -/
def layout : Json.Layout Draft PersistenceSettings where
  blank := {}
  fields := [
    ⟨"path", fun d => d.path.isSome, fun d => do
      return { d with path := some (← Json.readOptional Json.readText) }⟩,
    ⟨"interval_ms", fun d => d.intervalMillis.isSome, fun d => do
      return { d with intervalMillis := some (← Json.readNatural UInt64.size) }⟩]
  build d := some { path := d.path.join, intervalMillis := d.intervalMillis.getD 5000 }

def encode (s : PersistenceSettings) : Bytes :=
  Json.renderObject [
    ("path", match s.path with
      | some path => Json.renderText path
      | none => [110, 117, 108, 108]),
    ("interval_ms", Json.decimal s.intervalMillis)]

instance : Record PersistenceSettings where
  encode := encode
  decode := Json.decode layout.read

end PersistenceSettings

namespace Snapshot

/-- The temporary file that a snapshot is written to first. -/
def temporary (p : Path) : Path := p.withExtension "bin.tmp"

/-- The time that a snapshot gives, in whole milliseconds, for a clock that counts nanoseconds from
1970-01-01. A clock set before that counts as zero. -/
def millisOf (clock : Int) : Int := max clock 0 / 1_000_000

/-- What a step on files leads to, and the files it leaves; a step that fails changes nothing. -/
def fileStep (files : FileTree) (next : Except FileFault FileTree) :
    Except BackendError Unit × FileTree :=
  match next with
  | .ok files => (.ok (), files)
  | .error fault => (.error (.io fault), files)

/-- Puts data into the file at a path: into a temporary file first, which is renamed then. -/
def replaceFile (path : Path) (data : Bytes) (files : FileTree) :
    Except BackendError Unit × FileTree :=
  match files.createFolders path.parent with
  | (.error fault, files) => (.error (.io fault), files)
  | (.ok (), files) =>
    match fileStep files (files.write (temporary path) data) with
    | (.error e, files) => (.error e, files)
    | (.ok (), files) => fileStep files (files.rename (temporary path) path)

/-- Writes the contents of a backend to its file, if it has one. -/
def save (listing : String → Listing (Bytes × Bytes)) (clock : Int) (path : Option Path)
    (contents : Contents) (files : FileTree) : Except BackendError Unit × FileTree :=
  match path with
  | none => (.ok (), files)
  | some path => replaceFile path (ofContents listing (millisOf clock) contents).encode files

/-- The contents after loading the file of a backend, if it has one and its path leads to something.
-/
def load (path : Option Path) (files : FileTree) (contents : Contents) : Except BackendError Contents :=
  match path with
  | none => .ok contents
  | some path =>
    if !files.has path then .ok contents
    else match files.read path with
      | .error fault => .error (.io fault)
      | .ok data => restore data

/-- A new backend bound to a file, with what the file holds. -/
def openBackend (path : Option Path) (files : FileTree) : Except BackendError Backend := do
  return { contents := ← load path files .empty, faults := [] }

end Snapshot

/-- What a backend has in memory, and the files beside it. -/
structure Store where
  memory : Contents
  files : FileTree

namespace Store

/-- Puts what the file of a backend holds in place of what is in memory. -/
def load (path : Option Path) (st : Store) : Except BackendError Unit × Store :=
  match Snapshot.load path st.files st.memory with
  | .ok memory => (.ok (), { st with memory })
  | .error e => (.error e, st)

/-- Writes what is in memory to the file of a backend. -/
def save (listing : String → Listing (Bytes × Bytes)) (clock : Int) (path : Option Path)
    (st : Store) : Except BackendError Unit × Store :=
  let saved := Snapshot.save listing clock path st.memory st.files
  (saved.1, { st with files := saved.2 })

end Store

end AuthVault
