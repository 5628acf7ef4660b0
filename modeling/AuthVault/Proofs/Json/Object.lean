import AuthVault.Json.Record
import AuthVault.Proofs.Json.Text

/-!
# Written objects are read back

`Layout.read_renderObject`: an object written from names and values is read by a layout, and what
follows it is left, if the layout takes the members one after the other (`Taken`) and builds the
record from the draft that they leave. The loop over the members is an induction on what is written
(`membersFrom_pieces`): each round meets the text of one member, behind a comma unless it is the
first, and ends in front of the next comma or the closing brace. The fuel of the loop is the text
itself, which has at least one byte a piece (`length_le_separatedBefore`).
-/

namespace AuthVault.Json

/-! ### Pieces with commas between them -/

/-- The texts of members. -/
def pieces (ms : List (String × Bytes)) : List Bytes := ms.map fun m => renderMember m.1 m.2

/-- What follows a piece: a comma and the other pieces, if there are any. -/
def afterPiece (rest : Bytes) : List Bytes → Bytes
  | [] => rest
  | p :: more => 44 :: separatedBefore rest (p :: more)

theorem separatedBefore_cons (rest p : Bytes) (more : List Bytes) :
    separatedBefore rest (p :: more) = p ++ afterPiece rest more := by
  cases more with
  | nil => rfl
  | cons q more => rfl

theorem separatedBefore_append (rest more : Bytes) (ps : List Bytes) :
    separatedBefore rest ps ++ more = separatedBefore (rest ++ more) ps := by
  induction ps with
  | nil => rfl
  | cons p ps ih =>
    rw [separatedBefore_cons, separatedBefore_cons, List.append_assoc]
    cases ps with
    | nil => rfl
    | cons q ps => rw [afterPiece, List.cons_append, ih]; rfl

theorem separatedBefore_pieces_cons (rest : Bytes) (m : String × Bytes)
    (ms : List (String × Bytes)) :
    separatedBefore rest (pieces (m :: ms))
      = textBefore (58 :: m.2 ++ afterPiece rest (pieces ms)) m.1 := by
  rw [pieces, List.map_cons, separatedBefore_cons, renderMember, textBefore_append]
  rfl

theorem renderObject_append (ms : List (String × Bytes)) (more : Bytes) :
    renderObject ms ++ more = 123 :: separatedBefore (125 :: more) (pieces ms) := by
  rw [renderObject, List.cons_append, separatedBefore_append]
  rfl

theorem afterPiece_begins (rest : Bytes) (ps : List Bytes) :
    ∃ c more, (c = 44 ∨ c = 125) ∧ afterPiece (125 :: rest) ps = c :: more := by
  cases ps with
  | nil => exact ⟨125, rest, .inr rfl, rfl⟩
  | cons p ps => exact ⟨44, _, .inl rfl, rfl⟩

theorem length_le_separatedBefore {ps : List Bytes} (h : ∀ p ∈ ps, p ≠ []) (rest : Bytes) :
    ps.length ≤ (separatedBefore rest ps).length := by
  induction ps with
  | nil => exact Nat.zero_le _
  | cons p ps ih =>
    have hp : 0 < p.length := List.length_pos_iff.2 (h p List.mem_cons_self)
    have hafter : ps.length ≤ (afterPiece rest ps).length := by
      cases ps with
      | nil => exact Nat.zero_le _
      | cons q ps =>
        exact Nat.le_trans (ih fun q hq => h q (List.mem_cons_of_mem p hq)) (Nat.le_succ _)
    rw [separatedBefore_cons, List.length_cons, List.length_append]
    omega

theorem ne_nil_of_mem_pieces {ms : List (String × Bytes)} {p : Bytes} (h : p ∈ pieces ms) :
    p ≠ [] := by
  obtain ⟨m, -, rfl⟩ := List.mem_map.1 h
  exact List.cons_ne_nil _ _

/-! ### Members -/

section Members

variable {σ : Type} {member : String → σ → Reader σ}

/-- The members are taken one after the other, from the first draft to the second: each value is
read up to the comma or the brace behind it. -/
inductive Taken (member : String → σ → Reader σ) : List (String × Bytes) → σ → σ → Prop
  | nil (d : σ) : Taken member [] d d
  | cons {name : String} {value : Bytes} {ms : List (String × Bytes)} {d d'' : σ} (d' : σ)
      (head : ∀ c rest, c = 44 ∨ c = 125 →
        member name d (58 :: value ++ c :: rest) = .ok (d', c :: rest))
      (tail : Taken member ms d' d'') : Taken member ((name, value) :: ms) d d''

theorem Taken.append {ms ms' : List (String × Bytes)} {d d' d'' : σ} (h : Taken member ms d d')
    (h' : Taken member ms' d' d'') : Taken member (ms ++ ms') d d'' := by
  induction h with
  | nil d => exact h'
  | cons d' head tail ih => exact .cons d' head (ih h')

/-- The members that are left, as the loop meets them: without a comma in front of the first. -/
def membersText (isFirst : Bool) (rest : Bytes) (ms : List (String × Bytes)) : Bytes :=
  if isFirst then separatedBefore (125 :: rest) (pieces ms)
  else afterPiece (125 :: rest) (pieces ms)

theorem hasMember_nil (isFirst : Bool) (rest : Bytes) :
    hasMember isFirst (membersText isFirst rest []) = .ok (false, 125 :: rest) := by
  have hend : membersText isFirst rest [] = 125 :: rest := by cases isFirst <;> rfl
  rw [hend, hasMember, bind_ok (peek_cons (by decide) rest)]
  rfl

theorem hasMember_cons (isFirst : Bool) (rest : Bytes) (m : String × Bytes)
    (ms : List (String × Bytes)) :
    hasMember isFirst (membersText isFirst rest (m :: ms))
      = .ok (true, separatedBefore (125 :: rest) (pieces (m :: ms))) := by
  obtain ⟨text, htext⟩ : ∃ text, separatedBefore (125 :: rest) (pieces (m :: ms)) = 34 :: text :=
    ⟨_, separatedBefore_pieces_cons _ m ms⟩
  cases isFirst with
  | true =>
    rw [membersText, if_pos rfl, htext, hasMember, bind_ok (peek_cons (by decide) text)]
    rfl
  | false =>
    show hasMember false (44 :: separatedBefore (125 :: rest) (pieces (m :: ms))) = _
    rw [htext, hasMember, bind_ok (peek_cons (by decide) (34 :: text))]
    show (eat >>= fun _ => _) (44 :: 34 :: text) = _
    rw [bind_ok (eat_cons 44 (34 :: text)), bind_ok (peek_cons (by decide) text)]
    rfl

theorem membersFrom_pieces {ms : List (String × Bytes)} {d d' : σ} (h : Taken member ms d d')
    (fuel : Bytes) (hfuel : ms.length < fuel.length) (isFirst : Bool) (rest : Bytes) :
    membersFrom member fuel isFirst d (membersText isFirst rest ms) = .ok (d', 125 :: rest) := by
  induction h generalizing fuel isFirst with
  | nil d =>
    obtain ⟨x, fuel, rfl⟩ := List.exists_cons_of_length_pos (Nat.zero_lt_of_lt hfuel)
    rw [membersFrom, bind_ok (hasMember_nil isFirst rest)]
    rfl
  | @cons name value ms d d'' d' head tail ih =>
    obtain ⟨x, fuel, rfl⟩ := List.exists_cons_of_length_pos (Nat.zero_lt_of_lt hfuel)
    obtain ⟨c, more, hc, hmore⟩ := afterPiece_begins rest (pieces ms)
    have hnext : membersFrom member fuel false d' (afterPiece (125 :: rest) (pieces ms)) = _ :=
      ih fuel (by simp only [List.length_cons] at hfuel; omega) false
    rw [membersFrom, bind_ok (hasMember_cons isFirst rest (name, value) ms),
      separatedBefore_pieces_cons]
    show (eat >>= fun _ => stringText >>= fun name => member name d >>= fun next =>
      membersFrom member fuel false next) _ = _
    rw [textBefore, bind_ok (eat_cons _ _), bind_ok (stringText_foldr_escapeByte _ _), hmore,
      bind_ok (head c more hc), ← hmore]
    exact hnext

theorem members_pieces {ms : List (String × Bytes)} {d d' : σ} (h : Taken member ms d d')
    (rest : Bytes) :
    members member d (separatedBefore (125 :: rest) (pieces ms)) = .ok (d', 125 :: rest) := by
  have hlength : (pieces ms).length ≤ (separatedBefore (125 :: rest) (pieces ms)).length :=
    length_le_separatedBefore (fun _ => ne_nil_of_mem_pieces) (125 :: rest)
  have hpieces : (pieces ms).length = ms.length := List.length_map _
  exact membersFrom_pieces h _ (by rw [List.length_cons]; omega) true rest

end Members

/-! ### Records -/

namespace Layout

variable {δ α : Type} {layout : Layout δ α}

/-- A member of a known name that is not given yet is read by its field. -/
theorem member_of_find? {name : String} {field : Field δ} {d d' : δ} {b rest : Bytes}
    (hfind : layout.fields.find? (fun f => f.name == name) = some field)
    (hgiven : field.isGiven d = false) (hread : field.read d b = .ok (d', rest)) :
    layout.member name d (58 :: b) = .ok (d', rest) := by
  unfold member
  simp only [hfind, hgiven, Bool.false_eq_true, if_false]
  rw [bind_ok (colon_cons b)]
  exact hread

/-- A written object is read back. -/
theorem read_renderObject {ms : List (String × Bytes)} {d : δ} {x : α}
    (htaken : Taken layout.member ms layout.blank d) (hbuild : layout.build d = some x)
    (rest : Bytes) : layout.read (renderObject ms ++ rest) = .ok (x, rest) := by
  have hfinish : layout.finish d (125 :: rest) = .ok (x, 125 :: rest) := by
    simp only [finish, hbuild]
    rfl
  rw [renderObject_append, read, bind_ok (peek_cons (by decide) _)]
  show (eat >>= fun _ => members layout.member layout.blank >>= fun d =>
    layout.finish d >>= fun x =>
    eat >>= fun _ => pure x) _ = _
  rw [bind_ok (eat_cons _ _), bind_ok (members_pieces htaken rest), bind_ok hfinish,
    bind_ok (eat_cons _ _)]
  rfl

theorem decode_renderObject {ms : List (String × Bytes)} {d : δ} {x : α}
    (htaken : Taken layout.member ms layout.blank d) (hbuild : layout.build d = some x) :
    decode layout.read (renderObject ms) = .ok x := by
  have hread := read_renderObject htaken hbuild []
  rw [List.append_nil] at hread
  rw [decode, hread]
  rfl

end Layout

theorem renderObject_ne_nil (ms : List (String × Bytes)) : renderObject ms ≠ [] :=
  List.cons_ne_nil _ _

end AuthVault.Json
