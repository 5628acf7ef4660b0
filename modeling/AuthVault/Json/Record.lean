import AuthVault.Json.Reader

/-!
# Records

How records of one type are read. The fields may come in any order as the members of an object,
where unknown members are passed over and a known name may come once only, or as an array in their
own order. What has been read so far is a draft, from which the record is built at the end.
-/

namespace AuthVault.Json

/-- A field of a record whose drafts have type `δ`. -/
structure Field (δ : Type) where
  name : String
  /-- Whether the draft has the field already. -/
  isGiven : δ → Bool
  /-- Reads the value of the field into the draft. -/
  read : δ → Reader δ

/-- How records of type `α` are read by way of drafts of type `δ`. -/
structure Layout (δ α : Type) where
  blank : δ
  /-- The fields, in their order in an array. -/
  fields : List (Field δ)
  /-- The record of a draft, unless a field without a default is missing. -/
  build : δ → Option α

namespace Layout

variable {δ α : Type}

/-- Reads a member into the draft. -/
def member (layout : Layout δ α) (name : String) (draft : δ) : Reader δ :=
  match layout.fields.find? (fun f => f.name == name) with
  | some field => do
    if field.isGiven draft then throw .mistyped
    colon
    field.read draft
  | none => do
    colon
    skipValue
    return draft

/-- Reads the items of an array into the draft, one for each field, as long as there are any. -/
def positional : List (Field δ) → (isFirst : Bool) → δ → Reader δ
  | [], _, draft => return draft
  | field :: fields, isFirst, draft => do
    if ← hasItem isFirst then positional fields false (← field.read draft) else return draft

def finish (layout : Layout δ α) (draft : δ) : Reader α :=
  match layout.build draft with
  | some x => return x
  | none => throw .mistyped

def read (layout : Layout δ α) : Reader α := do
  match ← peek with
  | none => throw .truncated
  | some c =>
    if c = 123 then do
      eat
      let x ← layout.finish (← members layout.member layout.blank)
      eat
      return x
    else if c = 91 then do
      eat
      let x ← layout.finish (← positional layout.fields true layout.blank)
      endArray
      return x
    else refuse

end Layout

end AuthVault.Json
