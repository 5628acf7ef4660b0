import AuthVault.Account
import AuthVault.Time.Stamp

/-!
# Admins

Admins are accounts of the admin space with an API key, and an index leads from a key to the email
of its admin. A key authenticates an admin if the index has it and the account carries it, so that
what is left behind in the index grants nothing.
-/

namespace AuthVault.Admins

open IdentitySpace (admins)

/-- The namespace of the index from keys to emails. -/
def keySpace : String := "admin-keys"

def namespaces : List String := [admins.name, keySpace]

def setup : Action Unit := do
  admins.setup
  Backend.createNamespace keySpace

/-- The first eight bytes of a key, where they are there and end a character. -/
def shortened (key : String) : String :=
  let b := Bytes.ofText key
  if b.length < 8 then "<short>" else (Bytes.text? (b.take 8)).getD "<short>"

/-- No admin has the key. -/
def noSuchKey (key : String) : AuthError := .notFound ("admin for key " ++ shortened key)

/-- How a failure to find an account is told of a key. -/
def hideAccount (e : AuthError) : AuthError → AuthError
  | .notFound _ => e
  | other => other

/-- Registers an admin at an instant, and returns the new key. If the index cannot be written, the
account is removed again. One reading of the clock stands for two: that of the seed of the account and
that of the key. -/
def create (now : Instant) (email password : String) : Action String := do
  let credential := Credential.register password now.seed
  let key := Credential.issueToken credential.hash now.seed
  admins.insert { email, credential, key := some key }
  (Backend.put keySpace (Bytes.ofText key) (Bytes.ofText email)).andThen fun
    | .ok () => return key
    | .error e => do
      admins.delete email
      throw e

/-- The admin whom a key authenticates. -/
def authenticate (key : String) : Action Account := do
  if key = "" then throw (noSuchKey key)
  match ← Backend.get keySpace (Bytes.ofText key) with
  | none => throw (noSuchKey key)
  | some owner =>
    match Bytes.text? owner with
    | none => throw (noSuchKey key)
    | some email =>
      let account ← (admins.get email).mapError (hideAccount (noSuchKey key))
      if account.key ≠ some key then throw (noSuchKey key)
      return account

def ofEmail (email : String) : Action Account :=
  (admins.get email).mapError (hideAccount (.notFound ("admin for email " ++ Text.quoted email)))

def delete (key : String) : Action Unit := do
  let account ← authenticate key
  admins.delete account.email
  Backend.delete keySpace (Bytes.ofText key)

def deleteByEmail (email : String) : Action Unit := do
  let account ← ofEmail email
  if let some key := account.key then
    Backend.delete keySpace (Bytes.ofText key)
  admins.delete email

end AuthVault.Admins
