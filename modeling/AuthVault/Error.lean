import AuthVault.Text.Quoted

/-!
# Failures

What can go wrong in the vault: `BackendError` for the key/value backend and its snapshots,
`DecodeError` for a stored record, `AuthError` for every operation. Each failure has a message, a
short code and an HTTP status.
-/

namespace AuthVault

open Text (quoted)

inductive DecodeError
  /-- The text is not JSON. -/
  | malformed
  /-- The text ends too early. -/
  | truncated
  /-- The text is JSON of another shape than the record's. -/
  | mistyped
  deriving DecidableEq, Repr

/-- Why files could not be used as asked. -/
inductive FileFault
  | missing
  | isFolder
  | notFolder
  /-- A path or a name is too long, or has a null character. -/
  | unusable
  /-- A cause that the system words itself. -/
  | reported (text : String)
  deriving DecidableEq, Repr

def FileFault.detail : FileFault → Option String
  | .reported text => some text
  | .missing | .isFolder | .notFolder | .unusable => none

/-- Why a snapshot was not taken over. -/
inductive SnapshotFault
  | undecodable
  | version (n : Nat)
  | reported (text : String)
  deriving DecidableEq, Repr

def SnapshotFault.detail : SnapshotFault → Option String
  | .undecodable => none
  | .version n => some ("unsupported snapshot version " ++ toString n)
  | .reported text => some text

inductive BackendError
  | namespaceNotFound (name : String)
  | io (fault : FileFault)
  | corrupt (fault : SnapshotFault)
  deriving DecidableEq, Repr

/-- A heading, followed by the detail where there is one. -/
def withDetail (heading : String) : Option String → String
  | some text => heading ++ ": " ++ text
  | none => heading

def BackendError.message : BackendError → String
  | .namespaceNotFound name => "namespace " ++ quoted name ++ " not found"
  | .io fault => withDetail "snapshot io" fault.detail
  | .corrupt fault => withDetail "snapshot corrupt" fault.detail

inductive AuthError
  | alreadyExists (subject : String)
  | notFound (subject : String)
  | invalidCredential (email : String)
  | notLoggedIn (email : String)
  | badToken (email : String)
  | timedOut (email : String)
  | unauthorized (email : String)
  | badRequest (reason : String)
  | codec (cause : DecodeError)
  | backend (cause : BackendError)
  deriving DecidableEq, Repr

namespace AuthError

def message : AuthError → String
  | alreadyExists subject => subject ++ " already exists"
  | notFound subject => subject ++ " not found"
  | invalidCredential email => "invalid password for " ++ quoted email
  | notLoggedIn email => "user " ++ quoted email ++ " not logged in"
  | badToken email => "bad key for user " ++ quoted email
  | timedOut email => "user " ++ quoted email ++ " timed out"
  | unauthorized email => "user " ++ quoted email ++ " not authorized"
  | badRequest reason => "bad request: " ++ reason
  | codec _ => "stored record"
  | backend cause => cause.message

/-- The short name of the kind of failure. -/
def code : AuthError → String
  | alreadyExists _ => "already_exists"
  | notFound _ => "not_found"
  | invalidCredential _ => "invalid_credential"
  | notLoggedIn _ => "not_logged_in"
  | badToken _ => "bad_token"
  | timedOut _ => "timed_out"
  | unauthorized _ => "unauthorized"
  | badRequest _ => "bad_request"
  | codec _ => "codec_error"
  | backend _ => "backend_error"

def status : AuthError → Nat
  | alreadyExists _ => 409
  | notFound _ => 404
  | invalidCredential _ | notLoggedIn _ | badToken _ | timedOut _ => 401
  | unauthorized _ => 403
  | badRequest _ => 400
  | codec _ | backend _ => 500

/-- Whether only logging in again can help. -/
def isSessionFailure : AuthError → Bool
  | notLoggedIn _ | badToken _ | timedOut _ => true
  | _ => false

end AuthError

def accountSubject (email : String) : String := "account for email " ++ quoted email

end AuthVault
