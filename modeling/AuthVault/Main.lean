import AuthVault.Config
import AuthVault.Http.Router
import Std.Time.DateTime.Timestamp

/-!
# Command line

Asked for help, the program prints its usage. Otherwise it opens the snapshot, registers the first
admin and answers the requests that stand on the lines of standard input: on each line a method, a
target and, after another space, a body. The requests are answered one after the other, so that no
locks are needed; between two of them the snapshot is written whenever its interval has passed, and
once more when the input ends. Nothing is logged.
-/

namespace AuthVault.CommandLine

def clock : IO Int := do
  return (← Std.Time.Timestamp.now).toNanosecondsSinceUnixEpoch.val

def moment (c : Config) : IO Moment := do
  let nanos ← clock
  let now := (Instant.ofParts? (nanos / 1_000_000_000) (nanos % 1_000_000_000).toNat).getD .last
  return { now, window := c.sessionTimeout, listing := .ascending }

/-- The data of a file, unless it is missing. -/
def readFile? (path : String) : IO (Option Bytes) := do
  try
    return some (← IO.FS.readBinFile path).data.toList
  catch e =>
    match e with
    | .noFileOrDirectory .. => return none
    | _ => throw e

def openBackend (c : Config) : IO Backend := do
  match c.snapshotPath with
  | none => return .empty
  | some path =>
    match ← readFile? path with
    | none => return .empty
    | some data =>
      match Snapshot.restore data with
      | .ok contents => return { contents, faults := [] }
      | .error e => throw (IO.userError (AuthError.backend e).message)

/-- Writes the snapshot, if there is a file for it. -/
def save (c : Config) (b : Backend) : IO Unit := do
  if let some name := c.snapshotPath then
    let path := Path.ofText name
    let temporary := (Snapshot.temporary path).text
    let listing := fun _ => Listing.ascending
    let data := (Snapshot.ofContents listing (Snapshot.millisOf (← clock)) b.contents).encode
    if path.parent.text ≠ "" then IO.FS.createDirAll path.parent.text
    IO.FS.writeBinFile temporary data.toByteArray
    IO.FS.rename temporary name

def perform {α : Type} (x : Action α) (b : Backend) : IO (α × Backend) :=
  match x.run b with
  | (.ok a, b) => return (a, b)
  | (.error e, _) => throw (IO.userError e.message)

/-- The request on a line. -/
def request? (line : String) : Option Http.Request :=
  let cs := line.toList.takeWhile (· ≠ '\n')
  let word (cs : List Char) := (cs.takeWhile (· ≠ ' '), (cs.dropWhile (· ≠ ' ')).drop 1)
  let (method, rest) := word cs
  let (target, body) := word rest
  let bytes (cs : List Char) := Bytes.ofText (String.ofList cs)
  Http.Request.build? (bytes method) (bytes target) [] (bytes body)

/-- Prints a response: the status, the headers, an empty line and the body. -/
def printResponse (r : Http.Response) : IO Unit := do
  let out ← IO.getStdout
  out.putStrLn (toString r.status)
  for (name, value) in r.headers do
    out.putStrLn (name ++ ": " ++ Text.lossy value)
  out.putStrLn ""
  out.write r.body.toByteArray
  out.putStrLn ""
  out.flush

/-- Answers the requests on standard input, up to its end. The snapshot was last written at `saved`,
in nanoseconds. -/
partial def serve (c : Config) (b : Backend) (saved : Int) : IO Backend := do
  let line ← (← IO.getStdin).getLine
  if line = "" then return b
  let b ← match request? line with
    | some request => do
      let (response, b) := Http.answer (← moment c) request b
      printResponse response
      pure b
    | none => do
      IO.eprintln "not a request"
      pure b
  let time ← clock
  if saved + c.persistence.intervalMillis * 1_000_000 ≤ time then
    save c b
    serve c b time
  else
    serve c b saved

def run (c : Config) : IO Unit := do
  let b ← openBackend c
  let (_, b) ← perform Service.setup b
  let b ← match c.bootstrapAdmin with
    | none => pure b
    | some (email, password) => do
      let (key, b) ← perform (Service.bootstrapAdmin (← moment c) email password) b
      if let some key := key then
        IO.println ("bootstrap admin " ++ email ++ " key: " ++ key)
      pure b
  let b ← serve c b (← clock)
  save c b

/-- The values of the environment variables of all options. -/
def environment : IO (String → Option String) := do
  let settings : List Config.Setting :=
    [.httpPort, .db, .snapshotInterval, .sessionTimeout, .adminEmail, .adminPassword]
  let values ← settings.mapM fun s => return (s.variable, ← IO.getEnv s.variable)
  return fun name => (values.lookup name).join

def program (args : List String) : IO UInt32 := do
  if Config.hasFlag "--help" args || Config.hasFlag "-h" args then
    IO.println Config.usage
    return 0
  try
    run (Config.ofSources (← environment) args)
    return 0
  catch e =>
    IO.eprintln ("Error: " ++ toString e)
    return 1

end AuthVault.CommandLine

/-- The program: it takes its options from the arguments and the environment. -/
def main (args : List String) : IO UInt32 := AuthVault.CommandLine.program args
