import AuthVault.Credential
import AuthVault.Record

/-!
# Accounts

An account is registered under an email, once in each of two identity spaces, the users and the
admins. The spaces are tables of their own and have the same operations: `insert` refuses an email
that is taken, `replace` and `delete` one that is not.
-/

namespace AuthVault

/-- A registered account. -/
structure Account where
  email : String
  credential : Credential
  /-- The API key, which only admins have. -/
  key : Option String
  deriving DecidableEq

namespace Account

structure Draft where
  email : Option String := none
  salt : Option String := none
  hash : Option String := none
  key : Option (Option String) := none

def layout : Json.Layout Draft Account where
  blank := {}
  fields := [
    ⟨"email", fun d => d.email.isSome, fun d => do return { d with email := some (← Json.readText) }⟩,
    ⟨"salt", fun d => d.salt.isSome, fun d => do return { d with salt := some (← Json.readText) }⟩,
    ⟨"hash", fun d => d.hash.isSome, fun d => do return { d with hash := some (← Json.readText) }⟩,
    ⟨"key", fun d => d.key.isSome, fun d => do
      return { d with key := some (← Json.readOptional Json.readText) }⟩]
  build d := do
    return { email := ← d.email, credential := ⟨← d.salt, ← d.hash⟩, key := d.key.join }

/-- The stored form of an account; the key is left out where there is none. -/
def encode (a : Account) : Bytes :=
  Json.renderObject <|
    [("email", Json.renderText a.email), ("salt", Json.renderText a.credential.salt),
      ("hash", Json.renderText a.credential.hash)] ++
    match a.key with
    | some key => [("key", Json.renderText key)]
    | none => []

instance : Record Account where
  encode := encode
  decode := Json.decode layout.read

end Account

/-- The two spaces of identities. -/
inductive IdentitySpace
  | users
  | admins
  deriving DecidableEq

namespace IdentitySpace

def name : IdentitySpace → String
  | users => "user-users"
  | admins => "admin-admins"

variable (space : IdentitySpace)

def setup : Action Unit := Backend.createNamespace space.name

def load (email : String) : Action (Option Account) := Backend.getRecord space.name email

def get (email : String) : Action Account := do
  match ← space.load email with
  | some account => return account
  | none => throw (.notFound (accountSubject email))

def isRegistered (email : String) : Action Bool := do
  return (← space.load email).isSome

def insert (account : Account) : Action Unit := do
  if (← space.load account.email).isSome then
    throw (.alreadyExists (accountSubject account.email))
  Backend.putRecord space.name account.email account

/-- Registers an email with a password, salted from a seed. -/
def createSeeded (email password seed : String) : Action Account := do
  let account : Account := { email, credential := .register password seed, key := none }
  space.insert account
  return account

/-- Stores an account in place of the one with its email. -/
def replace (account : Account) : Action Unit := do
  if (← space.load account.email).isNone then
    throw (.notFound (accountSubject account.email))
  Backend.putRecord space.name account.email account

def delete (email : String) : Action Unit := do
  if (← space.load email).isNone then
    throw (.notFound (accountSubject email))
  Backend.delete space.name (Bytes.ofText email)

/-- Succeeds if the password is the one registered. -/
def checkPassword (email password : String) : Action Unit := do
  let account ← space.get email
  if !account.credential.verify password then
    throw (.invalidCredential email)

end IdentitySpace

end AuthVault
