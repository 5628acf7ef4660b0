import AuthVault.Http.Envelope
import AuthVault.Http.Message
import AuthVault.Http.Params
import AuthVault.Service

/-!
# The HTTP interface

A request is answered in three steps: its path names a route, the route takes its arguments from the
path, the query and the body, and the arguments make an operation of the service. Whatever the
answer is, it allows pages of any origin to read it, with credentials; an `OPTIONS` request asks for
that permission alone.
-/

namespace AuthVault.Http

/-! ### Routes -/

inductive Route
  | source
  | adminValid
  | adminCreate
  | adminDelete
  | userCreate
  | userDelete
  | userValid
  | userLogin
  | userLogout
  /-- The object whose id is the decoded segment. -/
  | object (segment : Bytes)
  deriving DecidableEq

namespace Route

def objectPath : Bytes := Bytes.ofText "/object/"

/-- The routes with a path of their own. -/
def fixed : List (Bytes × Route) := [
  (Bytes.ofText "/source", source),
  (Bytes.ofText "/admin/valid", adminValid),
  (Bytes.ofText "/admin/create", adminCreate),
  (Bytes.ofText "/admin/delete", adminDelete),
  (Bytes.ofText "/user/create", userCreate),
  (Bytes.ofText "/user/delete", userDelete),
  (Bytes.ofText "/user/valid", userValid),
  (Bytes.ofText "/user/login", userLogin),
  (Bytes.ofText "/user/logout", userLogout)]

def ofPath? (path : Bytes) : Option Route :=
  match fixed.find? fun r => r.1 == path with
  | some r => some r.2
  | none =>
    let segment := path.drop objectPath.length
    if path.take objectPath.length = objectPath ∧ segment ≠ [] ∧ ¬ segment.contains 47 then
      some (object segment)
    else none

def methods : Route → List Method
  | object _ => [.get, .head, .put, .delete]
  | _ => [.get, .head]

/-- The methods that a route takes, as a header. -/
def allow : Route → Bytes
  | object _ => Bytes.ofText "GET,HEAD,PUT,DELETE"
  | _ => Bytes.ofText "GET,HEAD"

end Route

/-! ### Answers -/

/-- What a route answers with, before it is put into a response. -/
inductive Outcome
  | text (s : String)
  /-- A request that cannot be read, with its status and a message. -/
  | refused (status : Nat) (message : String)
  | result (r : Except AuthError (List Json.Value))

def sourceText : String :=
  "---          K E Y G A T E          ---\n            keygate v0.3.0\n" ++
  " credential, session and object service\n---                                   ---\n"

/-- The greatest body that is read: two mebibytes. -/
def bodyLimit : Nat := 2097152

def textResponse (status : Nat) (s : String) : Response where
  status := status
  headers := [("content-type", Bytes.ofText "text/plain; charset=utf-8")]
  body := Bytes.ofText s

def envelopeResponse (status : Nat) (e : Envelope) : Response where
  status := status
  headers := [("content-type", Bytes.ofText "application/json")]
  body := e.encode

def Outcome.response : Outcome → Response
  | text s => textResponse 200 s
  | refused status message => textResponse status message
  | result (.ok values) => envelopeResponse 200 (.ofValues values)
  | result (.error e) => envelopeResponse e.status (.ofError e)

/-- A value with one text for each name. -/
def textObject (members : List (String × String)) : Json.Value :=
  .ofMembers (members.map fun m => (m.1, .text m.2))

/-! ### Arguments -/

/-- The parameters of a request, or why they cannot be read. -/
def params (uri : Uri) : Except Outcome Params :=
  match Params.ofQuery (uri.query.getD []) with
  | .ok p => .ok p
  | .error name =>
    .error (.refused 400 ("Failed to deserialize query string: duplicate field `" ++ name ++ "`"))

/-- The id of an object, or why it cannot be read. -/
def objectId (segment : Bytes) : Except Outcome String :=
  match Bytes.text? (Percent.decode segment) with
  | some id => .ok id
  | none => .error (.refused 400 "Invalid URL: Invalid UTF-8 in `id`")

/-- The payload of a request: the parameter `json`, or else the body, which must not be too long. -/
def payload (p : Params) (body : Bytes) : Except Outcome Bytes :=
  if bodyLimit < body.length then
    .error (.refused 413 "Failed to buffer the request body: length limit exceeded")
  else .ok (if p.json = "" then body else Bytes.ofText p.json)

/-- What is offered to delete a user: a key, or else a password. -/
def deletionProof? (p : Params) : Option DeletionProof :=
  if p.key ≠ "" then some (.adminKey p.key)
  else if p.email ≠ "" ∨ p.pwhash ≠ "" then some (.password p.pwhash)
  else none

/-! ### Handlers -/

/-- What a request to a route does; the second part of a failure is what is answered instead. -/
def handler (moment : Moment) (route : Route) (request : Request) :
    Except Outcome (Action (List Json.Value)) :=
  match route with
  | .source => .error (.text sourceText)
  | .adminValid => do
    let p ← params request.uri
    return do
      let _ ← Service.checkAdmin p.key
      return [.text "ok"]
  | .adminCreate => do
    let p ← params request.uri
    return do
      let key ← Service.createAdmin moment p.key p.email p.pwhash
      return [textObject [("email", p.email), ("key", key)]]
  | .adminDelete => do
    let p ← params request.uri
    return do
      Service.deleteAdmin p.key
      return [.ofMembers [("deleted", .bool true)]]
  | .userCreate => do
    let p ← params request.uri
    return do
      Service.createUser moment p.key p.email p.pwhash
      return [textObject [("email", p.email)]]
  | .userDelete => do
    let p ← params request.uri
    return match deletionProof? p with
      | none => throw (.badRequest "must pass pwhash and email, or API key")
      | some proof => do
        Service.deleteUser moment proof p.email
        return [textObject [("email", p.email)]]
  | .userValid => do
    let p ← params request.uri
    return do
      Service.validate moment p.email p.key
      return [textObject [("email", p.email)]]
  | .userLogin => do
    let p ← params request.uri
    return do
      let key ← Service.login moment p.email p.pwhash
      return [textObject [("email", p.email), ("key", key)]]
  | .userLogout => do
    let p ← params request.uri
    return do
      Service.logout moment p.email p.key
      return [textObject [("email", p.email)]]
  | .object segment => do
    let id ← objectId segment
    let p ← params request.uri
    match request.method with
    | .put => do
      let payload ← payload p request.body
      return do
        let o ← Service.putObject moment p.email p.key id payload
        return [objectView o]
    | .delete =>
      return do
        Service.deleteObject moment p.email p.key id
        return [.text id]
    | _ =>
      return do
        let o ← Service.getObject moment p.email p.key id
        return [objectView o]

def runHandler (h : Except Outcome (Action (List Json.Value))) (b : Backend) : Outcome × Backend :=
  match h with
  | .error o => (o, b)
  | .ok x =>
    let (r, b) := x.run b
    (.result r, b)

/-! ### Responses -/

/-- The response to a method that the route does not take. -/
def wrongMethod (route : Route) : Response where
  status := 405
  headers := [("allow", route.allow)]
  body := []

def unknownPath : Response := { status := 404, headers := [], body := [] }

/-- The response to a question for permission. -/
def permission (route : Option Route) : Response where
  status := 200
  headers := ("access-control-allow-methods", Bytes.ofText "GET,PUT,POST,DELETE") ::
    match route with
    | some route => [("allow", route.allow)]
    | none => []
  body := []

/-- A response with the permission for the page that asks. -/
def Response.shared (origin : Option Bytes) (r : Response) : Response :=
  { r with headers := r.headers ++
      [("vary", Bytes.ofText "origin, access-control-request-method, access-control-request-headers"),
        ("access-control-allow-credentials", Bytes.ofText "true")] ++
      match origin with
      | some origin => [("access-control-allow-origin", origin)]
      | none => [] }

/-- The response to a request that is not a question for permission. -/
def respond (moment : Moment) (request : Request) (b : Backend) : Response × Backend :=
  match Route.ofPath? request.uri.path with
  | none => (unknownPath, b)
  | some route =>
    if request.method ∈ route.methods then
      let (outcome, b) := runHandler (handler moment route request) b
      let response := outcome.response
      (if request.method = .head then { response with body := [] } else response, b)
    else (wrongMethod route, b)

/-- Answers a request. -/
def answer (moment : Moment) (request : Request) (b : Backend) : Response × Backend :=
  let (response, b) :=
    if request.method = .options then (permission (Route.ofPath? request.uri.path), b)
    else respond moment request b
  (response.shared (request.header? "origin"), b)

end AuthVault.Http
