import AuthVault.Bytes
import AuthVault.Dict
import AuthVault.Error

/-!
# The key/value backend

Named namespaces hold byte values under byte keys. An `Action` works on a backend and ends with a
result or a failure; what it wrote before a failure stays written. There are five primitive calls
(`createNamespace`, `put`, `get`, `delete`, `keys`), and a backend can be armed with faults, each of
which makes one later call fail in place of running.
-/

namespace AuthVault

-- Given by name, so that keys are in the same order whatever else is imported.

instance transLtBytes : Trans (· < · : Bytes → Bytes → Prop) (· < · : Bytes → Bytes → Prop)
    (· < · : Bytes → Bytes → Prop) := ⟨fun h h' => List.lt_trans h h'⟩

instance transLtString : Trans (· < · : String → String → Prop) (· < · : String → String → Prop)
    (· < · : String → String → Prop) := ⟨fun h h' => Std.lt_trans h h'⟩

instance trichotomousLtBytes : Std.Trichotomous (· < · : Bytes → Bytes → Prop) := inferInstance

instance trichotomousLtString : Std.Trichotomous (· < · : String → String → Prop) := inferInstance

/-- The entries of a namespace. -/
abbrev Table := Dict Bytes Bytes

/-- The namespaces of a backend. -/
abbrev Contents := Dict String Table

/-- An order in which a backend lists what it holds. It may be another one each time. -/
structure Listing (α : Type) where
  order : List α → List α
  perm : ∀ items, (order items).Perm items

namespace Listing

variable {α : Type}

/-- The order in which dictionaries keep their entries. -/
def ascending : Listing α := ⟨fun items => items, fun items => .refl items⟩

def descending : Listing α := ⟨List.reverse, List.reverse_perm⟩

end Listing

inductive Call
  | create
  | put
  | get
  | delete
  | keys
  deriving DecidableEq, Repr

def Call.name : Call → String
  | create => "create"
  | put => "put"
  | get => "get"
  | delete => "delete"
  | keys => "keys"

/-- A failure that waits for a call on a namespace, and lets `after` such calls pass first. -/
structure Fault where
  call : Call
  space : String
  after : Nat
  deriving DecidableEq, Repr

/-- What is stored, and the faults that are armed, in the order of arming. -/
structure Backend where
  contents : Contents
  faults : List Fault

def Backend.empty : Backend := ⟨.empty, []⟩

/-- Something to do with a backend. -/
def Action (α : Type) : Type := Backend → Except AuthError α × Backend

namespace Action

variable {α β : Type}

/-- What an action makes of a backend. -/
def run (x : Action α) (b : Backend) : Except AuthError α × Backend := x b

def fail (e : AuthError) : Action α := fun b => (.error e, b)

/-- Goes on from the end of an action, whether it is a result or a failure. -/
def andThen (x : Action α) (next : Except AuthError α → Action β) : Action β := fun b =>
  next (x b).1 (x b).2

instance : Monad Action where
  pure a := fun b => (.ok a, b)
  bind x f := x.andThen fun
    | .ok a => f a
    | .error e => fail e

instance : MonadExcept AuthError Action where
  throw := fail
  tryCatch x handler := x.andThen fun
    | .ok a => pure a
    | .error e => handler e

def mapError (x : Action α) (f : AuthError → AuthError) : Action α := x.andThen fun
  | .ok a => pure a
  | .error e => fail (f e)

@[simp] theorem run_pure (a : α) (b : Backend) : run (pure a) b = (.ok a, b) := rfl

@[simp] theorem run_throw (e : AuthError) (b : Backend) :
    run (throw e : Action α) b = (.error e, b) := rfl

theorem run_bind (x : Action α) (f : α → Action β) (b : Backend) :
    run (x >>= f) b = match run x b with
      | (.ok a, b') => run (f a) b'
      | (.error e, b') => (.error e, b') := by
  show run (andThen x _) b = _
  unfold run andThen
  cases h : x b with
  | mk r b' => cases r <;> rfl

theorem run_mapError (x : Action α) (f : AuthError → AuthError) (b : Backend) :
    run (x.mapError f) b = match run x b with
      | (.ok a, b') => (.ok a, b')
      | (.error e, b') => (.error (f e), b') := by
  unfold run mapError andThen
  cases h : x b with
  | mk r b' => cases r <;> rfl

theorem ext_run {x y : Action α} (h : ∀ b, run x b = run y b) : x = y := funext h

instance : LawfulMonad Action := LawfulMonad.mk' Action
  (fun x => ext_run fun b => by
    show run (x >>= pure) b = run x b
    rw [run_bind]
    cases h : run x b with
    | mk r b' => cases r <;> rfl)
  (fun a f => ext_run fun b => by rw [run_bind]; rfl)
  (fun x f g => ext_run fun b => by
    rw [run_bind, run_bind, run_bind]
    cases h : run x b with
    | mk r b' =>
      cases r with
      | error e => rfl
      | ok a => rw [← run_bind])

end Action

namespace Backend

/-- Whether an armed fault fires on a call, and the faults armed afterwards: the first one for the
call that has no more to let pass fires, and those before it for the same call let one pass less. -/
def trip (call : Call) (space : String) : List Fault → Bool × List Fault
  | [] => (false, [])
  | f :: rest =>
    if f.call = call ∧ f.space = space then
      if f.after = 0 then (true, rest)
      else
        let (fires, rest) := trip call space rest
        (fires, { f with after := f.after - 1 } :: rest)
    else
      let (fires, rest) := trip call space rest
      (fires, f :: rest)

/-- The failure of a call in place of which a fault fires. -/
def injected (call : Call) : AuthError :=
  .backend (.corrupt (.reported ("injected " ++ call.name)))

/-- Runs a primitive call, unless an armed fault fires. -/
def perform {α : Type} (call : Call) (space : String)
    (act : Contents → Except BackendError (α × Contents)) : Action α := fun b =>
  let (fires, faults) := trip call space b.faults
  if fires then (.error (injected call), { b with faults })
  else match act b.contents with
    | .ok (x, contents) => (.ok x, { contents, faults })
    | .error e => (.error (.backend e), { b with faults })

def table (contents : Contents) (space : String) : Except BackendError Table :=
  match contents.get? space with
  | some t => .ok t
  | none => .error (.namespaceNotFound space)

/-- Creates a namespace, unless it exists. -/
def createNamespace (space : String) : Action Unit :=
  perform .create space fun c => .ok ((), if c.contains space then c else c.insert space .empty)

def put (space : String) (key value : Bytes) : Action Unit :=
  perform .put space fun c => do
    let t ← table c space
    return ((), c.insert space (t.insert key value))

def get (space : String) (key : Bytes) : Action (Option Bytes) :=
  perform .get space fun c => do
    let t ← table c space
    return (t.get? key, c)

def delete (space : String) (key : Bytes) : Action Unit :=
  perform .delete space fun c => do
    let t ← table c space
    return ((), c.insert space (t.erase key))

/-- All keys, in ascending order. An action that goes through them takes a `Listing` for the order in
which the backend has them. -/
def keys (space : String) : Action (List Bytes) :=
  perform .keys space fun c => do
    let t ← table c space
    return (t.keys, c)

def createAll : (spaces : List String) → Action Unit
  | [] => pure ()
  | space :: rest => do
    createNamespace space
    createAll rest

/-- Arms a fault behind those armed already. -/
def arm (b : Backend) (fault : Fault) : Backend := { b with faults := b.faults ++ [fault] }

def namespaces (b : Backend) : List String := b.contents.keys

/-- The number of keys of a namespace; zero if it does not exist. -/
def count (b : Backend) (space : String) : Nat :=
  match b.contents.get? space with
  | some t => t.size
  | none => 0

end Backend

end AuthVault
