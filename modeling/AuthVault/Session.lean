import AuthVault.Account
import AuthVault.Time.Stamp

/-!
# Sessions

A user has one session at most, with a key and an expiry. Each use with the key before the expiry
moves the expiry to the end of a window that opens then. An expired session stays in place until the
user logs in again. A `Manager` keeps how long the window is, which can be changed at any time.
-/

namespace AuthVault

structure Session where
  email : String
  key : String
  expiresAt : Instant
  deriving DecidableEq

namespace Session

def readStamp : Json.Reader Instant := do
  match Instant.ofStamp? (← Json.readText) with
  | some t => return t
  | none => throw .mistyped

structure Draft where
  email : Option String := none
  key : Option String := none
  expiresAt : Option Instant := none

def layout : Json.Layout Draft Session where
  blank := {}
  fields := [
    ⟨"email", fun d => d.email.isSome, fun d => do return { d with email := some (← Json.readText) }⟩,
    ⟨"key", fun d => d.key.isSome, fun d => do return { d with key := some (← Json.readText) }⟩,
    ⟨"expires_at", fun d => d.expiresAt.isSome, fun d => do
      return { d with expiresAt := some (← readStamp) }⟩]
  build d := do
    return { email := ← d.email, key := ← d.key, expiresAt := ← d.expiresAt }

def encode (s : Session) : Bytes :=
  Json.renderObject [("email", Json.renderText s.email), ("key", Json.renderText s.key),
    ("expires_at", Json.renderText s.expiresAt.stamp)]

instance : Record Session where
  encode := encode
  decode := Json.decode layout.read

end Session

namespace Sessions

def space : String := "user-login-keys"

/-- The window of a session where none is configured: five minutes. -/
def defaultWindow : Duration := .seconds 300

def setup : Action Unit := Backend.createNamespace space

/-- The session of an email, expired or not. -/
def get (email : String) : Action (Option Session) := Backend.getRecord space email

def store (session : Session) : Action Unit := Backend.putRecord space session.email session

/-- Opens a session for a user with the right password, in place of an earlier one, and returns its
key. One reading of the clock stands for two: that of the expiry and that of the key. -/
def login (now : Instant) (window : Duration) (email password : String) : Action String := do
  IdentitySpace.users.checkPassword email password
  let key := Credential.issueToken password now.seed
  store { email, key, expiresAt := now.expiry window }
  return key

/-- Succeeds if the key is that of a session which has not expired, and moves its expiry. -/
def validate (now : Instant) (window : Duration) (email key : String) : Action Unit := do
  match ← get email with
  | none => throw (.notLoggedIn email)
  | some session =>
    if session.key ≠ key then throw (.badToken email)
    if session.expiresAt.notAfter now then throw (.timedOut email)
    store { session with expiresAt := now.expiry window }

/-- Closes a session, given its key. -/
def logout (now : Instant) (window : Duration) (email key : String) : Action Unit := do
  validate now window email key
  Backend.delete space (Bytes.ofText email)

/-- Closes the session of an email, if there is one, and tells whether there was. -/
def clear (email : String) : Action Bool := do
  let existed := (← get email).isSome
  if existed then Backend.delete space (Bytes.ofText email)
  return existed

/-- What manages sessions: how long they last from their next login or use on. -/
structure Manager where
  window : Duration := defaultWindow

namespace Manager

/-- Changes how long sessions last. One that is open keeps its expiry until it is used. -/
def setWindow (m : Manager) (window : Duration) : Manager := { m with window }

def login (m : Manager) (now : Instant) (email password : String) : Action String :=
  Sessions.login now m.window email password

def validate (m : Manager) (now : Instant) (email key : String) : Action Unit :=
  Sessions.validate now m.window email key

def logout (m : Manager) (now : Instant) (email key : String) : Action Unit :=
  Sessions.logout now m.window email key

end Manager

end Sessions

end AuthVault
