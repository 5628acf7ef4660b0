import AuthVault.Bytes
import AuthVault.Dict
import AuthVault.Error
import AuthVault.Files.Path

/-!
# Files

A tree of folders and files, as the value that snapshots are read from and written to. What stands
in it has a location, the names that lead there from the root; the root is always a folder. A path
is followed piece by piece, and each piece needs a folder to start from. A write or a renaming that
fails changes nothing; folders that were created stay.
-/

namespace AuthVault

/-- The names from the root of a tree to a file or folder. -/
abbrev Location := List String

/-- A file, or a folder with what stands in it under names in ascending order. -/
inductive FileNode
  | file (data : Bytes)
  | folder (entries : List (String × FileNode))

/-- A tree of files and folders: what stands in the folder at its root. -/
structure FileTree where
  entries : List (String × FileNode)

namespace FileTree

def empty : FileTree := ⟨[]⟩

/-! ### Locations -/

def node? (t : FileTree) : Location → Option FileNode
  | [] => some (.folder t.entries)
  | name :: rest =>
    match t.entries.lookup name with
    | none => none
    | some (.file data) => if rest = [] then some (.file data) else none
    | some (.folder entries) => node? ⟨entries⟩ rest

/-- Puts something at a location in a folder, in place of what stands there; where there is no such
folder, nothing changes. -/
def insert (n : FileNode) (t : FileTree) : Location → FileTree
  | [] => t
  | name :: rest =>
    if rest = [] then ⟨Dict.insertEntry name n t.entries⟩
    else match t.entries.lookup name with
      | some (.folder entries) =>
        ⟨Dict.insertEntry name (.folder (insert n ⟨entries⟩ rest).entries) t.entries⟩
      | _ => t

/-- Takes away what stands at a location; the root stays. -/
def erase (t : FileTree) : Location → FileTree
  | [] => t
  | name :: rest =>
    if rest = [] then ⟨t.entries.filter fun e => e.1 ≠ name⟩
    else match t.entries.lookup name with
      | some (.folder entries) =>
        ⟨Dict.insertEntry name (.folder (erase ⟨entries⟩ rest).entries) t.entries⟩
      | _ => t

/-! ### Following paths -/

/-- Goes on from a folder by one piece of a path; the way back from the root leads to the root. -/
def enter (t : FileTree) (l : Location) (piece : String) : Except FileFault Location :=
  match t.node? l with
  | some (.folder entries) =>
    if Path.isIdle piece then .ok l
    else if piece = Path.back then .ok l.dropLast
    else if Path.nameLimit < piece.utf8ByteSize then .error .unusable
    else if (entries.lookup piece).isNone then .error .missing
    else .ok (l ++ [piece])
  | _ => .error .notFolder

/-- Goes on by several pieces. -/
def follow (t : FileTree) (l : Location) : (pieces : List String) → Except FileFault Location
  | [] => .ok l
  | piece :: rest =>
    match t.enter l piece with
    | .ok next => t.follow next rest
    | .error fault => .error fault

def locate (t : FileTree) (p : Path) : Except FileFault Location :=
  if p.isUsable then t.follow [] p.pieces else .error .unusable

def has (t : FileTree) (p : Path) : Bool :=
  match t.locate p with
  | .ok _ => true
  | .error _ => false

def dataAt (t : FileTree) (l : Location) : Except FileFault Bytes :=
  match t.node? l with
  | some (.file data) => .ok data
  | some (.folder _) => .error .isFolder
  | none => .error .missing

def read (t : FileTree) (p : Path) : Except FileFault Bytes :=
  match t.locate p with
  | .ok l => t.dataAt l
  | .error fault => .error fault

/-- The location of a file to be put at a path, whose last piece must be a name in a folder: there
may be a file, but no folder. -/
def place (t : FileTree) (p : Path) : Except FileFault Location :=
  match p.pieces.getLast? with
  | none => .error .isFolder
  | some name =>
    if !p.isUsable then .error .unusable
    else match t.follow [] p.pieces.dropLast with
      | .error fault => .error fault
      | .ok l =>
        match t.node? l with
        | some (.folder entries) =>
          if Path.isIdle name ∨ name = Path.back then .error .isFolder
          else if Path.nameLimit < name.utf8ByteSize then .error .unusable
          else match entries.lookup name with
            | some (.folder _) => .error .isFolder
            | _ => .ok (l ++ [name])
        | _ => .error .notFolder

/-! ### Changes -/

/-- Writes a file, in place of one that stands there. -/
def write (t : FileTree) (p : Path) (data : Bytes) : Except FileFault FileTree := do
  return t.insert (.file data) (← t.place p)

/-- Moves a file, in place of one that stands at the target. -/
def rename (t : FileTree) (source target : Path) : Except FileFault FileTree := do
  let l ← t.locate source
  let data ← t.dataAt l
  return (t.erase l).insert (.file data) (← t.place target)

def remove (t : FileTree) (p : Path) : Except FileFault FileTree := do
  let l ← t.locate p
  let _ ← t.dataAt l
  return t.erase l

/-- Goes on by several pieces to a folder, and creates the folders that are missing on the way. -/
def createFrom (t : FileTree) (l : Location) :
    (pieces : List String) → Except FileFault Unit × FileTree
  | [] =>
    match t.node? l with
    | some (.folder _) => (.ok (), t)
    | _ => (.error .notFolder, t)
  | piece :: rest =>
    match t.enter l piece with
    | .ok next => t.createFrom next rest
    | .error .missing => createFrom (t.insert (.folder []) (l ++ [piece])) (l ++ [piece]) rest
    | .error fault => (.error fault, t)

/-- Creates the folder that a path leads to and those on the way, as far as they are missing. -/
def createFolders (t : FileTree) (p : Path) : Except FileFault Unit × FileTree :=
  if p.isUsable then t.createFrom [] p.pieces else (.error .unusable, t)

end FileTree

/-! ### Listing -/

mutual

/-- The names that lead from a node to each file in it or below it. -/
def FileNode.files : FileNode → List Location
  | .file _ => [[]]
  | .folder entries => filesIn entries

/-- The names that lead to each file in a folder or below it. -/
def filesIn : List (String × FileNode) → List Location
  | [] => []
  | (name, n) :: rest => n.files.map (name :: ·) ++ filesIn rest

end

/-- The names from a folder to each file in it or below it. -/
def FileTree.filesBelow (t : FileTree) (folder : Location) : List Location :=
  match t.node? folder with
  | some n => n.files
  | none => []

end AuthVault
