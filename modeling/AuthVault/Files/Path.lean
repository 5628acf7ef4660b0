/-!
# Paths

A path as it is written: the pieces between its slashes, from the root. A piece may be a name, two
dots for the way back, or idle: nothing at all or one dot. Idle pieces at the end do not count for
the parent and the name of a path, but they do where the path is followed.
-/

namespace AuthVault

/-- The pieces between the slashes of a path. -/
structure Path where
  pieces : List String
  deriving DecidableEq

namespace Path

/-- The pieces of a text, the first of which begins with the given characters, in reverse. -/
def split (done : List Char) : List Char → List String
  | [] => [String.ofList done.reverse]
  | c :: rest =>
    if c = '/' then String.ofList done.reverse :: split [] rest else split (c :: done) rest

def ofText (s : String) : Path := ⟨split [] s.toList⟩

def text (p : Path) : String := String.intercalate "/" p.pieces

/-- Whether a piece stays where it is. -/
def isIdle (piece : String) : Bool := piece == "" || piece == "."

def back : String := ".."

/-- The path without the idle pieces at its end. -/
def trimmed (p : Path) : Path := ⟨(p.pieces.reverse.dropWhile isIdle).reverse⟩

/-- The path without its last piece that is not idle. -/
def parent (p : Path) : Path := trimmed ⟨p.trimmed.pieces.dropLast⟩

/-- The path with the last piece that is not idle replaced. -/
def withLast (p : Path) (piece : String) : Path := ⟨p.trimmed.pieces.dropLast ++ [piece]⟩

/-- A name without its extension, which begins at the last dot. A dot in front begins none. -/
def stem (name : String) : String :=
  let cs := name.toList
  let ext := (cs.reverse.takeWhile (· ≠ '.')).length
  let front := cs.take (cs.length - ext - 1)
  if ext < cs.length ∧ front ≠ [] then String.ofList front else name

/-- The path with the extension of its name replaced, or added where there is none. A path without a
name stays as it is. What is left when an extension at the very end is cut off is read as a path
again: behind a stem of one dot that is the way back, which takes no extension. -/
def withExtension (p : Path) (extension : String) : Path :=
  match p.trimmed.pieces.getLast? with
  | none => p
  | some name =>
    if name = back then p
    else if stem name = "." ∧ p.trimmed = p then p.withLast back
    else p.withLast (stem name ++ "." ++ extension)

def sizeLimit : Nat := 4095

def nameLimit : Nat := 255

/-- Whether a path can be followed at all: it is not too long, and has no null character. -/
def isUsable (p : Path) : Bool :=
  p.text.utf8ByteSize ≤ sizeLimit && p.pieces.all fun piece => piece.toList.all fun c => c.toNat ≠ 0

end Path

end AuthVault
