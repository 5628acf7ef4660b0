import AuthVault.Json.Number

/-!
# JSON values

A JSON value keeps the members of an object sorted by name, each name once. Values are written
without white space (`Value.render`), and so are the pieces that records are written with:
`renderText`, `renderArray` and `renderObject`. Texts are built from the end: each part is written
in front of what follows it.
-/

namespace AuthVault.Json

inductive Value
  | null
  | bool (b : Bool)
  | number (n : Number)
  | text (s : String)
  | array (items : List Value)
  | object (members : List (String × Value))
  deriving Inhabited

/-- Members with one more: it comes before the greater names, and replaces a member of its name. -/
def insertMember (name : String) (v : Value) : List (String × Value) → List (String × Value)
  | [] => [(name, v)]
  | (m, w) :: rest =>
    if name < m then (name, v) :: (m, w) :: rest
    else if name = m then (name, v) :: rest
    else (m, w) :: insertMember name v rest

/-- The object with the given members; the last of a name counts. -/
def Value.ofMembers (members : List (String × Value)) : Value :=
  .object (members.foldl (fun acc m => insertMember m.1 m.2 acc) [])

/-! ### Writing -/

/-- A byte of a text as it stands between the quotes. -/
def escapeByte (b : UInt8) : Bytes :=
  if b = 34 then [92, 34]
  else if b = 92 then [92, 92]
  else if b = 8 then [92, 98]
  else if b = 9 then [92, 116]
  else if b = 10 then [92, 110]
  else if b = 12 then [92, 102]
  else if b = 13 then [92, 114]
  else if b < 32 then [92, 117, 48, 48, Bytes.hexDigit (b.toNat / 16), Bytes.hexDigit (b.toNat % 16)]
  else [b]

/-- A text between quotes, in front of `rest`. -/
def textBefore (rest : Bytes) (s : String) : Bytes :=
  34 :: (Bytes.ofText s).foldr (fun b rest => escapeByte b ++ rest) (34 :: rest)

def renderText (s : String) : Bytes := textBefore [] s

/-- Pieces with commas between them, in front of `rest`. -/
def separatedBefore (rest : Bytes) : List Bytes → Bytes
  | [] => rest
  | [p] => p ++ rest
  | p :: q :: more => p ++ 44 :: separatedBefore rest (q :: more)

def renderMember (name : String) (value : Bytes) : Bytes := textBefore (58 :: value) name

/-- An object of names and written values. -/
def renderObject (members : List (String × Bytes)) : Bytes :=
  123 :: separatedBefore [125] (members.map fun m => renderMember m.1 m.2)

mutual

/-- The text of a value, in front of `rest`. -/
def valueBefore (rest : Bytes) : Value → Bytes
  | .null => 110 :: 117 :: 108 :: 108 :: rest
  | .bool true => 116 :: 114 :: 117 :: 101 :: rest
  | .bool false => 102 :: 97 :: 108 :: 115 :: 101 :: rest
  | .number n => n.render ++ rest
  | .text s => textBefore rest s
  | .array items => 91 :: itemsBefore (93 :: rest) items
  | .object members => 123 :: membersBefore (125 :: rest) members

/-- The texts of the items of an array with commas between them, in front of `rest`. -/
def itemsBefore (rest : Bytes) : List Value → Bytes
  | [] => rest
  | [v] => valueBefore rest v
  | v :: w :: more => valueBefore (44 :: itemsBefore rest (w :: more)) v

/-- The members of an object with commas between them, in front of `rest`. -/
def membersBefore (rest : Bytes) : List (String × Value) → Bytes
  | [] => rest
  | [(name, v)] => textBefore (58 :: valueBefore rest v) name
  | (name, v) :: m :: more =>
    textBefore (58 :: valueBefore (44 :: membersBefore rest (m :: more)) v) name

end

def Value.render (v : Value) : Bytes := valueBefore [] v

def renderArray (items : List Value) : Bytes := 91 :: itemsBefore [93] items

end AuthVault.Json
