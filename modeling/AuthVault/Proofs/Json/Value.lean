import AuthVault.Dict
import AuthVault.Proofs.Json.Object

/-!
# Written values are read back

A value is read back from its text at any depth that it does not exceed (`Legible.read`), provided
that its objects have their members in order and that there are no numbers in it. The items of an
array and the members of an object are pieces with commas between them (`itemsBefore_eq`,
`membersBefore_eq`), so that the loop over the items is an induction on the pieces, as that over
the members is. Members in order stay as they are when they are put in one after the other
(`taken_members`), and members that have been put in are in order (`legible_ofMembers`).
-/

namespace AuthVault.Json

/-! ### What follows a value -/

mutual

theorem valueBefore_append (rest more : Bytes) :
    ∀ v : Value, valueBefore rest v ++ more = valueBefore (rest ++ more) v
  | .null => rfl
  | .bool true => rfl
  | .bool false => rfl
  | .number n => List.append_assoc _ _ _
  | .text s => textBefore_append s rest more
  | .array items => by
    rw [valueBefore, List.cons_append, itemsBefore_append, valueBefore, List.cons_append]
  | .object members => by
    rw [valueBefore, List.cons_append, membersBefore_append, valueBefore, List.cons_append]

theorem itemsBefore_append (rest more : Bytes) :
    ∀ items : List Value, itemsBefore rest items ++ more = itemsBefore (rest ++ more) items
  | [] => rfl
  | [v] => valueBefore_append rest more v
  | v :: w :: items => by
    rw [itemsBefore, valueBefore_append, List.cons_append, itemsBefore_append, itemsBefore]

theorem membersBefore_append (rest more : Bytes) : ∀ members : List (String × Value),
    membersBefore rest members ++ more = membersBefore (rest ++ more) members
  | [] => rfl
  | [(name, v)] => by
    rw [membersBefore, textBefore_append, List.cons_append, valueBefore_append, membersBefore]
  | (name, v) :: m :: members => by
    rw [membersBefore, textBefore_append, List.cons_append, valueBefore_append, List.cons_append,
      membersBefore_append, membersBefore]

end

theorem valueBefore_eq (rest : Bytes) (v : Value) : valueBefore rest v = v.render ++ rest :=
  (valueBefore_append [] rest v).symm

/-- The items of an array are pieces with commas between them. -/
theorem itemsBefore_eq (rest : Bytes) (items : List Value) :
    itemsBefore rest items = separatedBefore rest (items.map Value.render) := by
  induction items with
  | nil => rfl
  | cons v items ih =>
    rw [List.map_cons, separatedBefore_cons]
    cases items with
    | nil => exact valueBefore_eq rest v
    | cons w items => rw [itemsBefore, valueBefore_eq, ih]; rfl

/-- The members of an object are pieces with commas between them. -/
theorem membersBefore_eq (rest : Bytes) (members : List (String × Value)) :
    membersBefore rest members
      = separatedBefore rest (pieces (members.map fun m => (m.1, m.2.render))) := by
  induction members with
  | nil => rfl
  | cons m members ih =>
    obtain ⟨name, v⟩ := m
    rw [List.map_cons, separatedBefore_pieces_cons]
    cases members with
    | nil => rw [membersBefore, valueBefore_eq]; rfl
    | cons m members => rw [membersBefore, valueBefore_eq, ih]; rfl

/-! ### Items -/

section Items

variable {α : Type} {item : Reader α}

/-- An item is read from its text, which does not look like the end of an array. -/
structure ReadsItem (item : Reader α) (x : α) (text : Bytes) : Prop where
  begins : ∃ c more, text = c :: more ∧ isSpace c = false ∧ c ≠ 93
  reads : ∀ rest, item (text ++ rest) = .ok (x, rest)

/-- The items that are left, as the loop meets them: without a comma in front of the first. -/
def itemsText (isFirst : Bool) (rest : Bytes) (ps : List Bytes) : Bytes :=
  if isFirst then separatedBefore (93 :: rest) ps else afterPiece (93 :: rest) ps

theorem hasItem_nil (isFirst : Bool) (rest : Bytes) :
    hasItem isFirst (itemsText isFirst rest []) = .ok (false, 93 :: rest) := by
  have hend : itemsText isFirst rest [] = 93 :: rest := by cases isFirst <;> rfl
  rw [hend, hasItem, bind_ok (peek_cons (by decide) rest)]
  rfl

theorem hasItem_cons {x : α} {p : Bytes} (h : ReadsItem item x p) (isFirst : Bool) (rest : Bytes)
    (ps : List Bytes) :
    hasItem isFirst (itemsText isFirst rest (p :: ps))
      = .ok (true, p ++ afterPiece (93 :: rest) ps) := by
  obtain ⟨c, more, rfl, hspace, hend⟩ := h.begins
  rw [← separatedBefore_cons]
  obtain ⟨text, htext⟩ : ∃ text, separatedBefore (93 :: rest) ((c :: more) :: ps) = c :: text :=
    ⟨_, separatedBefore_cons _ _ _⟩
  cases isFirst with
  | true =>
    rw [itemsText, if_pos rfl, htext, hasItem, bind_ok (peek_cons hspace text)]
    simp only [if_neg hend, if_true]
    rfl
  | false =>
    show hasItem false (44 :: separatedBefore (93 :: rest) ((c :: more) :: ps)) = _
    rw [htext, hasItem, bind_ok (peek_cons (by decide) (c :: text))]
    show (eat >>= fun _ => _) (44 :: c :: text) = _
    rw [bind_ok (eat_cons 44 (c :: text)), bind_ok (peek_cons hspace text)]
    simp only [if_neg hend]
    rfl

theorem itemsFrom_pieces {write : α → Bytes} {xs : List α}
    (h : ∀ x ∈ xs, ReadsItem item x (write x)) (fuel : Bytes) (hfuel : xs.length < fuel.length)
    (isFirst : Bool) (done : List α) (rest : Bytes) :
    itemsFrom item fuel isFirst done (itemsText isFirst rest (xs.map write))
      = .ok (done.reverse ++ xs, rest) := by
  induction xs generalizing fuel isFirst done with
  | nil =>
    obtain ⟨b, fuel, rfl⟩ := List.exists_cons_of_length_pos (Nat.zero_lt_of_lt hfuel)
    rw [List.map_nil, itemsFrom, bind_ok (hasItem_nil isFirst rest), List.append_nil]
    rfl
  | cons x xs ih =>
    obtain ⟨b, fuel, rfl⟩ := List.exists_cons_of_length_pos (Nat.zero_lt_of_lt hfuel)
    have hx := h x List.mem_cons_self
    have hnext := ih (fun y hy => h y (List.mem_cons_of_mem x hy)) fuel
      (by simp only [List.length_cons] at hfuel; omega) false (x :: done)
    rw [List.map_cons, itemsFrom, bind_ok (hasItem_cons hx isFirst rest (xs.map write))]
    show (item >>= fun x => itemsFrom item fuel false (x :: done)) _ = _
    rw [bind_ok (hx.reads _)]
    rw [List.reverse_cons, List.append_assoc, List.singleton_append] at hnext
    exact hnext

/-- The items of an array are read, with the bracket behind them. -/
theorem items_pieces {write : α → Bytes} {xs : List α} (h : ∀ x ∈ xs, ReadsItem item x (write x))
    (rest : Bytes) :
    items item (separatedBefore (93 :: rest) (xs.map write)) = .ok (xs, rest) := by
  have hne : ∀ p ∈ xs.map write, p ≠ [] := by
    intro p hp
    obtain ⟨x, hx, rfl⟩ := List.mem_map.1 hp
    obtain ⟨c, more, htext, -, -⟩ := (h x hx).begins
    exact htext ▸ List.cons_ne_nil c more
  have hlength := length_le_separatedBefore hne (93 :: rest)
  rw [List.length_map] at hlength
  exact itemsFrom_pieces h _ (by rw [List.length_cons]; omega) true [] rest

end Items

/-! ### Values -/

/-- A value without numbers, whose members are in order, and in which at most `depth` arrays and
objects are open at a time. -/
inductive Legible : (depth : Nat) → Value → Prop
  | null (depth : Nat) : Legible depth .null
  | bool (depth : Nat) (b : Bool) : Legible depth (.bool b)
  | text (depth : Nat) (s : String) : Legible depth (.text s)
  | array {depth : Nat} {items : List Value} (h : ∀ v ∈ items, Legible depth v) :
      Legible (depth + 1) (.array items)
  | object {depth : Nat} {members : List (String × Value)}
      (hsorted : members.Pairwise fun m n => m.1 < n.1) (h : ∀ m ∈ members, Legible depth m.2) :
      Legible (depth + 1) (.object members)

theorem Legible.begins {depth : Nat} {v : Value} (h : Legible depth v) :
    ∃ c more, v.render = c :: more ∧ isSpace c = false ∧ c ≠ 93 := by
  cases h with
  | null => exact ⟨110, _, rfl, by decide, by decide⟩
  | bool _ b =>
    cases b with
    | true => exact ⟨116, _, rfl, by decide, by decide⟩
    | false => exact ⟨102, _, rfl, by decide, by decide⟩
  | text _ s => exact ⟨34, _, rfl, by decide, by decide⟩
  | array => exact ⟨91, _, rfl, by decide, by decide⟩
  | object => exact ⟨123, _, rfl, by decide, by decide⟩

/-- What is not an array or an object is read in the same way at any depth. -/
theorem readValue_eq (depth : Nat) : ∃ array object, readValue depth = valueWith array object := by
  cases depth with
  | zero => exact ⟨_, _, rfl⟩
  | succ depth => exact ⟨_, _, rfl⟩

theorem insertMember_of_forall_lt {name : String} {v : Value} {ms : List (String × Value)}
    (h : ∀ m ∈ ms, m.1 < name) : insertMember name v ms = ms ++ [(name, v)] := by
  induction ms with
  | nil => rfl
  | cons m ms ih =>
    obtain ⟨other, w⟩ := m
    have hlt : other < name := h (other, w) List.mem_cons_self
    have hne : name ≠ other := fun heq => String.lt_irrefl name (heq ▸ hlt)
    rw [insertMember, if_neg (String.lt_asymm hlt), if_neg hne,
      ih fun m hm => h m (List.mem_cons_of_mem _ hm)]
    rfl

/-- Members in order are put behind those that are there. -/
theorem taken_members {read : Reader Value} {ms done : List (String × Value)}
    (h : ∀ m ∈ ms, ∀ rest, read (m.2.render ++ rest) = .ok (m.2, rest))
    (hsorted : (done ++ ms).Pairwise fun m n => m.1 < n.1) :
    Taken (fun name ms => do colon; return insertMember name (← read) ms)
      (ms.map fun m => (m.1, m.2.render)) done (done ++ ms) := by
  induction ms generalizing done with
  | nil =>
    rw [List.append_nil]
    exact .nil done
  | cons m ms ih =>
    obtain ⟨name, v⟩ := m
    have hlt : ∀ m ∈ done, m.1 < name := fun m hm =>
      (List.pairwise_append.1 hsorted).2.2 m hm (name, v) List.mem_cons_self
    rw [List.append_cons] at hsorted ⊢
    refine .cons (done ++ [(name, v)]) (fun c rest _ => ?_)
      (ih (fun m hm => h m (List.mem_cons_of_mem _ hm)) hsorted)
    show (colon >>= fun _ => read >>= fun v => pure (insertMember name v done))
      (58 :: (v.render ++ c :: rest)) = _
    rw [bind_ok (colon_cons _), bind_ok (h (name, v) List.mem_cons_self _),
      insertMember_of_forall_lt hlt]
    rfl

/-- A legible value is read back, and what follows it is left. -/
theorem Legible.read {depth : Nat} {v : Value} (h : Legible depth v) (rest : Bytes) :
    readValue depth (v.render ++ rest) = .ok (v, rest) := by
  induction h generalizing rest with
  | null depth =>
    obtain ⟨array, object, hread⟩ := readValue_eq depth
    rw [hread, valueWith]
    exact bind_ok (peek_cons (by decide) _)
  | bool depth b =>
    obtain ⟨array, object, hread⟩ := readValue_eq depth
    rw [hread, valueWith]
    cases b with
    | true => exact bind_ok (peek_cons (by decide) _)
    | false => exact bind_ok (peek_cons (by decide) _)
  | text depth s =>
    obtain ⟨array, object, hread⟩ := readValue_eq depth
    rw [← valueBefore_eq, hread, valueWith, valueBefore, textBefore,
      bind_ok (peek_cons (by decide) _)]
    show (eat >>= fun _ => stringText >>= fun s => pure (Value.text s)) _ = _
    rw [bind_ok (eat_cons _ _), bind_ok (stringText_foldr_escapeByte s rest)]
    rfl
  | @array depth items hitems ih =>
    rw [← valueBefore_eq, valueBefore, itemsBefore_eq, readValue, valueWith,
      bind_ok (peek_cons (by decide) _)]
    show (eat >>= fun _ => Json.items (readValue depth) >>= fun vs => pure (Value.array vs)) _ = _
    rw [bind_ok (eat_cons _ _),
      bind_ok (items_pieces (fun v hv => ⟨(hitems v hv).begins, ih v hv⟩) rest)]
    rfl
  | @object depth members hsorted hmembers ih =>
    have htaken : Taken _ (members.map fun m => (m.1, m.2.render)) [] members :=
      taken_members ih hsorted
    rw [← valueBefore_eq, valueBefore, membersBefore_eq, readValue, valueWith,
      bind_ok (peek_cons (by decide) _)]
    show (eat >>= fun _ => Json.members _ [] >>= fun ms =>
      eat >>= fun _ => pure (Value.object ms)) _ = _
    rw [bind_ok (eat_cons _ _), bind_ok (members_pieces htaken rest), bind_ok (eat_cons _ _)]
    rfl

theorem Legible.readsItem {depth : Nat} {v : Value} (h : Legible depth v) :
    ReadsItem (readValue depth) v v.render := ⟨h.begins, h.read⟩

/-- An array of legible values is read back. -/
theorem readList_renderArray {depth : Nat} {values : List Value} (h : ∀ v ∈ values, Legible depth v)
    (rest : Bytes) :
    readList (readValue depth) (renderArray values ++ rest) = .ok (values, rest) := by
  rw [renderArray, itemsBefore_eq, List.cons_append, separatedBefore_append, List.singleton_append,
    readList, bind_ok (peek_cons (by decide) _)]
  show (eat >>= fun _ => items (readValue depth)) _ = _
  rw [bind_ok (eat_cons _ _)]
  exact items_pieces (fun v hv => (h v hv).readsItem) rest

/-! ### Members that have been put in -/

theorem insertMember_eq (name : String) (v : Value) (ms : List (String × Value)) :
    insertMember name v ms = Dict.insertEntry name v ms := by
  induction ms with
  | nil => rfl
  | cons m ms ih => rw [insertMember, ih]; rfl

/-- An object made of members is legible if their values are, in whatever order they come. -/
theorem legible_ofMembers {depth : Nat} {members : List (String × Value)}
    (h : ∀ m ∈ members, Legible depth m.2) : Legible (depth + 1) (.ofMembers members) := by
  have hfold : ∀ done : List (String × Value), (done.Pairwise fun m n => m.1 < n.1) →
      (∀ m ∈ done, Legible depth m.2) →
      Legible (depth + 1)
        (.object (members.foldl (fun acc m => insertMember m.1 m.2 acc) done)) := by
    induction members with
    | nil => exact fun done hsorted hdone => .object hsorted hdone
    | cons m members ih =>
      intro done hsorted hdone
      rw [List.foldl_cons, insertMember_eq]
      refine ih (fun m' hm' => h m' (List.mem_cons_of_mem m hm')) _
        (Dict.sorted_insertEntry m.1 m.2 hsorted) fun m' hm' => ?_
      rcases Dict.mem_insertEntry hm' with rfl | hm'
      · exact h m List.mem_cons_self
      · exact hdone m' hm'
  exact hfold [] .nil fun m hm => absurd hm List.not_mem_nil

end AuthVault.Json
