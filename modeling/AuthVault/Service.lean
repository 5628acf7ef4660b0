import AuthVault.Admin
import AuthVault.Object
import AuthVault.Session

/-!
# The service

The operations that requests reach. Users and admins are managed with the key of an admin, except
that users may delete their own account with their password; objects are used by the user of a valid
session, which every use prolongs. Deleting an account takes its session and its objects along. An
`Operation` is one of these with its arguments, and `Operation.run` does it at a `Moment`.
-/

namespace AuthVault

/-- What an operation finds when it runs: the reading of the clock, how long sessions last from then
on, and the order in which the backend lists its keys. -/
structure Moment where
  now : Instant
  window : Duration
  listing : Listing Bytes

/-- What entitles to delete a user account. -/
inductive DeletionProof
  | adminKey (key : String)
  | password (password : String)
  deriving DecidableEq

namespace Service

/-- The namespaces of the service, in the order in which they are created. -/
def namespaces : List String :=
  [IdentitySpace.users.name, Sessions.space, Objects.space] ++ Admins.namespaces

def setup : Action Unit := Backend.createAll namespaces

/-- Fails if an argument is empty. -/
def requireField (name value : String) : Action Unit := do
  if value = "" then throw (.badRequest ("missing " ++ name))

/-! ### Admins -/

/-- Registers the first admin and returns the key, unless there is an admin with the email. -/
def bootstrapAdmin (moment : Moment) (email password : String) : Action (Option String) :=
  (Admins.ofEmail email).andThen fun
    | .ok _ => return none
    | .error (.notFound _) => do return some (← Admins.create moment.now email password)
    | .error e => throw e

/-- The admin whom a key authenticates. -/
def checkAdmin (key : String) : Action Account := Admins.authenticate key

/-- Registers an admin and returns the key. -/
def createAdmin (moment : Moment) (key email password : String) : Action String := do
  requireField "email" email
  let _ ← Admins.authenticate key
  Admins.create moment.now email password

def deleteAdmin (key : String) : Action Unit := Admins.delete key

/-! ### Users -/

def createUser (moment : Moment) (key email password : String) : Action Unit := do
  requireField "email" email
  let _ ← Admins.authenticate key
  let _ ← IdentitySpace.users.createSeeded email password moment.now.seed

/-- Succeeds if the proof entitles to delete the account of an email. -/
def checkProof (proof : DeletionProof) (email : String) : Action Unit :=
  match proof with
  | .adminKey key => do let _ ← Admins.authenticate key
  | .password password => IdentitySpace.users.checkPassword email password

/-- Removes a user account, then its session, then its objects. -/
def deleteUser (moment : Moment) (proof : DeletionProof) (email : String) : Action Unit := do
  requireField "email" email
  checkProof proof email
  IdentitySpace.users.delete email
  let _ ← Sessions.clear email
  let _ ← Objects.deleteAllIn moment.listing email

def login (moment : Moment) (email password : String) : Action String := do
  requireField "email" email
  Sessions.login moment.now moment.window email password

/-- Succeeds for the key of a live session, which is prolonged. -/
def validate (moment : Moment) (email key : String) : Action Unit :=
  Sessions.validate moment.now moment.window email key

def logout (moment : Moment) (email key : String) : Action Unit :=
  Sessions.logout moment.now moment.window email key

/-! ### Objects -/

def putObject (moment : Moment) (email key id : String) (payload : Bytes) : Action StoredObject := do
  requireField "id" id
  validate moment email key
  Objects.put id payload email

def getObject (moment : Moment) (email key id : String) : Action StoredObject := do
  validate moment email key
  Objects.get id email

def deleteObject (moment : Moment) (email key id : String) : Action Unit := do
  validate moment email key
  Objects.delete id email

/-! ### Operations as data -/

/-- An operation with its arguments. -/
inductive Operation
  | bootstrapAdmin (email password : String)
  | checkAdmin (key : String)
  | createAdmin (key email password : String)
  | deleteAdmin (key : String)
  | createUser (key email password : String)
  | deleteUser (proof : DeletionProof) (email : String)
  | login (email password : String)
  | validate (email key : String)
  | logout (email key : String)
  | putObject (email key id : String) (payload : Bytes)
  | getObject (email key id : String)
  | deleteObject (email key id : String)
  deriving DecidableEq

inductive Answer
  | done
  | key (key : String)
  | newKey (key : Option String)
  | account (account : Account)
  | object (object : StoredObject)
  deriving DecidableEq

def Operation.run (op : Operation) (moment : Moment) : Action Answer :=
  match op with
  | .bootstrapAdmin email password => Answer.newKey <$> Service.bootstrapAdmin moment email password
  | .checkAdmin key => Answer.account <$> Service.checkAdmin key
  | .createAdmin key email password => Answer.key <$> Service.createAdmin moment key email password
  | .deleteAdmin key => (fun _ => Answer.done) <$> Service.deleteAdmin key
  | .createUser key email password => (fun _ => Answer.done) <$> Service.createUser moment key email password
  | .deleteUser proof email => (fun _ => Answer.done) <$> Service.deleteUser moment proof email
  | .login email password => Answer.key <$> Service.login moment email password
  | .validate email key => (fun _ => Answer.done) <$> Service.validate moment email key
  | .logout email key => (fun _ => Answer.done) <$> Service.logout moment email key
  | .putObject email key id payload => Answer.object <$> Service.putObject moment email key id payload
  | .getObject email key id => Answer.object <$> Service.getObject moment email key id
  | .deleteObject email key id => (fun _ => Answer.done) <$> Service.deleteObject moment email key id

end Service

end AuthVault
