import AuthVault.Http.Params
import AuthVault.Proofs.Dict
import AuthVault.Proofs.Http.Percent

/-!
# Queries are read back

`IsQuery` relates names and values to the queries that give them: parts between ampersands, each a
name and a value in percent encoding around an equals sign. No ampersand occurs inside a part, so a
query is split into its parts again, and no equals sign occurs inside a name (`pairs_of_isQuery`).
Where each name comes once, every parameter has the value that is given under its name
(`ofQuery_of_isQuery`); this is an induction on what is still to be taken into the draft, and so is
that a query is refused exactly if a known name comes twice in it (`exists_ofQuery_iff`).
-/

namespace AuthVault.Http.Params

/-- A part of a query that gives a value under a name. A number sign would end the query, an ampersand
the part and an equals sign the name, and a plus sign would be a space, so they are escaped. -/
inductive IsPart : (field : String × String) → (part : Bytes) → Prop
  | mk {name value : String} {encodedName encodedValue : Bytes}
      (hname : Percent.Encodes [35, 38, 43, 61] (Bytes.ofText name) encodedName)
      (hvalue : Percent.Encodes [35, 38, 43] (Bytes.ofText value) encodedValue) :
      IsPart (name, value) (encodedName ++ 61 :: encodedValue)

/-- A query that gives values under names, in their order. -/
inductive IsQuery : (fields : List (String × String)) → (query : Bytes) → Prop
  | nil : IsQuery [] []
  | single {field : String × String} {part : Bytes} (h : IsPart field part) : IsQuery [field] part
  | cons {field : String × String} {fields : List (String × String)} {part query : Bytes}
      (h : IsPart field part) (hrest : IsQuery fields query) :
      IsQuery (field :: fields) (part ++ 38 :: query)

/-- A query that gives values under names, with all but letters and digits escaped. -/
def queryOf : (fields : List (String × String)) → Bytes
  | [] => []
  | [field] => partOf field
  | field :: next :: fields => partOf field ++ 38 :: queryOf (next :: fields)
where
  partOf (field : String × String) : Bytes :=
    Percent.encode (Bytes.ofText field.1) ++ 61 :: Percent.encode (Bytes.ofText field.2)

theorem isPart_partOf (field : String × String) : IsPart field (queryOf.partOf field) :=
  .mk (Percent.encodes_encode (by decide +kernel) _) (Percent.encodes_encode (by decide +kernel) _)

theorem isQuery_queryOf (fields : List (String × String)) : IsQuery fields (queryOf fields) := by
  induction fields with
  | nil => exact .nil
  | cons field fields ih =>
    cases fields with
    | nil => exact .single (isPart_partOf field)
    | cons next fields => exact .cons (isPart_partOf field) ih

/-! ### Splitting -/

theorem splitAfter_append {sep : UInt8} {piece : Bytes} (h : sep ∉ piece) (done : List Bytes)
    (part rest : Bytes) :
    splitAfter sep done part (piece ++ rest) = splitAfter sep done (piece.reverse ++ part) rest := by
  induction piece generalizing part with
  | nil => rfl
  | cons b piece ih =>
    obtain ⟨hb, hpiece⟩ : sep ≠ b ∧ sep ∉ piece := by simpa only [List.mem_cons, not_or] using h
    rw [List.cons_append, splitAfter, if_neg (Ne.symm hb), ih hpiece, List.reverse_cons,
      List.append_assoc, List.singleton_append]

theorem splitAfter_part {sep : UInt8} {piece : Bytes} (h : sep ∉ piece) (done : List Bytes) :
    splitAfter sep done [] piece = done.reverse ++ [piece] := by
  have hsplit := splitAfter_append h done [] []
  rw [List.append_nil, List.append_nil] at hsplit
  rw [hsplit, splitAfter, List.reverse_reverse, List.reverse_cons]

theorem splitAfter_cons {sep : UInt8} {piece : Bytes} (h : sep ∉ piece) (done : List Bytes)
    (rest : Bytes) :
    splitAfter sep done [] (piece ++ sep :: rest) = splitAfter sep (piece :: done) [] rest := by
  rw [splitAfter_append h, List.append_nil, splitAfter, if_pos rfl, List.reverse_reverse]

/-- The names and values of the parts that are not empty. -/
def read (parts : List Bytes) : List (String × String) :=
  (parts.filter fun part => part ≠ []).map fun part =>
    let name := part.takeWhile fun x => x ≠ 61
    (unescape name, unescape ((part.drop name.length).drop 1))

theorem pairs_eq (query : Bytes) : pairs query = read (splitAfter 38 [] [] query) := rfl

theorem read_append (parts more : List Bytes) : read (parts ++ more) = read parts ++ read more := by
  rw [read, List.filter_append, List.map_append]
  rfl

theorem unescape_of_encodes {reserved encoded : Bytes} {s : String} (hplus : 43 ∈ reserved)
    (h : Percent.Encodes reserved (Bytes.ofText s) encoded) : unescape encoded = s := by
  have hplus : (43 : UInt8) ∉ encoded := h.not_mem ⟨hplus, by decide, by decide⟩
  have hmap : (encoded.map fun x => if x = 43 then 32 else x) = encoded := by
    rw [List.map_congr_left fun x hx => if_neg fun heq : x = 43 => hplus (heq ▸ hx), List.map_id']
  rw [unescape, hmap, h.decode_eq, Text.lossy, Bytes.text?_ofText]

/-- Neither what ends a query nor what separates its parts occurs inside a part. -/
theorem IsPart.not_mem {field : String × String} {part : Bytes} (h : IsPart field part) :
    35 ∉ part ∧ 38 ∉ part := by
  cases h with
  | mk hname hvalue =>
    simp only [List.mem_append, List.mem_cons, not_or]
    exact ⟨⟨hname.not_mem (by decide), by decide, hvalue.not_mem (by decide)⟩,
      hname.not_mem (by decide), by decide, hvalue.not_mem (by decide)⟩

theorem IsQuery.not_mem {fields : List (String × String)} {query : Bytes}
    (h : IsQuery fields query) : 35 ∉ query := by
  induction h with
  | nil => exact List.not_mem_nil
  | single hpart => exact hpart.not_mem.1
  | cons hpart _ ih =>
    simp only [List.mem_append, List.mem_cons, not_or]
    exact ⟨hpart.not_mem.1, by decide, ih⟩

theorem takeWhile_ne_of_not_mem {b : UInt8} {front : Bytes} (h : b ∉ front) (rest : Bytes) :
    (front ++ b :: rest).takeWhile (fun x => x ≠ b) = front := by
  rw [List.takeWhile_append_of_pos fun x hx => by simpa using fun heq : x = b => h (heq ▸ hx),
    List.takeWhile_cons_of_neg (by simp), List.append_nil]

theorem IsPart.read_eq {field : String × String} {part : Bytes} (h : IsPart field part) :
    read [part] = [field] := by
  cases h with
  | @mk name value encodedName encodedValue hname hvalue =>
    have htake := takeWhile_ne_of_not_mem (b := 61) (hname.not_mem (by decide)) encodedValue
    rw [read, List.filter_cons_of_pos (by simp), List.filter_nil, List.map_cons]
    simp only [htake, List.drop_left, List.drop_one, List.tail_cons, List.map_nil]
    rw [unescape_of_encodes (by decide) hname, unescape_of_encodes (by decide) hvalue]

theorem IsQuery.read_splitAfter {fields : List (String × String)} {query : Bytes}
    (h : IsQuery fields query) (done : List Bytes) :
    read (splitAfter 38 done [] query) = read done.reverse ++ fields := by
  induction h generalizing done with
  | nil =>
    rw [splitAfter_part List.not_mem_nil, read_append]
    rfl
  | single hpart => rw [splitAfter_part hpart.not_mem.2, read_append, hpart.read_eq]
  | cons hpart _ ih =>
    rw [splitAfter_cons hpart.not_mem.2, ih, List.reverse_cons, read_append, hpart.read_eq,
      List.append_assoc, List.singleton_append]

/-- A query has the names and values that it gives. -/
theorem pairs_of_isQuery {fields : List (String × String)} {query : Bytes}
    (h : IsQuery fields query) : pairs query = fields := by
  rw [pairs_eq, h.read_splitAfter]
  rfl

/-! ### Parameters -/

/-- The names that parameters have. -/
def known : List String := ["email", "pwhash", "key", "json"]

/-- What a draft has under a name. -/
def Draft.value? (d : Draft) (name : String) : Option String :=
  match name with
  | "email" => d.email
  | "pwhash" => d.pwhash
  | "key" => d.key
  | "json" => d.json
  | _ => none

/-- A name that is not given yet is given a value, and no other. -/
theorem Draft.assign_of_new {d : Draft} {name : String} (h : d.value? name = none) (value : String) :
    ∃ d', d.assign name value = .ok d' ∧ (name ∈ known → d'.value? name = some value) ∧
      ∀ other, other ≠ name → d'.value? other = d.value? other := by
  unfold assign
  split
  iterate 4
    simp only [value?] at h
    rw [h, if_neg (by decide)]
    refine ⟨_, rfl, fun _ => rfl, fun other hother => ?_⟩
    unfold value?
    split <;> first | rfl | contradiction
  · next hemail hpwhash hkey hjson =>
    refine ⟨d, rfl, fun hknown => ?_, fun _ _ => rfl⟩
    simp only [known, List.mem_cons, List.not_mem_nil, or_false] at hknown
    rcases hknown with rfl | rfl | rfl | rfl <;> contradiction

/-- Where each name comes once and none is given yet, all are taken. -/
theorem Draft.assignAll_of_nodup {fields : List (String × String)} {d : Draft}
    (hnodup : (fields.map (·.1)).Nodup) (hnew : ∀ field ∈ fields, d.value? field.1 = none) :
    ∃ d', d.assignAll fields = .ok d' ∧
      ∀ name ∈ known, d'.value? name = (fields.lookup name).or (d.value? name) := by
  induction fields generalizing d with
  | nil => exact ⟨d, rfl, fun _ _ => rfl⟩
  | cons field fields ih =>
    obtain ⟨name, value⟩ := field
    obtain ⟨hname, hnodup⟩ := List.nodup_cons.1 hnodup
    obtain ⟨d₁, hassign, hgiven, hothers⟩ :=
      Draft.assign_of_new (hnew (name, value) List.mem_cons_self) value
    have hne : ∀ field ∈ fields, field.1 ≠ name := fun field hfield heq =>
      hname (List.mem_map.2 ⟨field, hfield, heq⟩)
    obtain ⟨d', hrest, hvalues⟩ := ih hnodup fun field hfield => by
      rw [hothers _ (hne field hfield)]
      exact hnew field (List.mem_cons_of_mem _ hfield)
    refine ⟨d', by rw [assignAll, hassign]; exact hrest, fun other hother => ?_⟩
    rw [hvalues other hother, Dict.lookup_cons]
    by_cases heq : other = name
    · subst heq
      have hnone : fields.lookup other = none :=
        List.lookup_eq_none_iff.2 fun field hfield => bne_iff_ne.2 (hne field hfield).symm
      rw [hnone, if_pos rfl, hgiven hother]
      rfl
    · rw [if_neg heq, hothers other heq]

theorem Draft.value?_of_not_known (d : Draft) {name : String} (h : name ∉ known) :
    d.value? name = none := by
  simp only [known, List.mem_cons, List.not_mem_nil, or_false, not_or] at h
  obtain ⟨hemail, hpwhash, hkey, hjson⟩ := h
  unfold value?
  split
  iterate 4 contradiction
  rfl

/-- A name that is given already is not taken again. -/
theorem Draft.assign_of_given {d : Draft} {name : String} (h : (d.value? name).isSome = true)
    (value : String) : d.assign name value = .error name := by
  unfold assign
  split
  iterate 4
    simp only [value?] at h
    rw [if_pos h]
  next hemail hpwhash hkey hjson =>
    have hknown : name ∉ known := by
      simp only [known, List.mem_cons, List.not_mem_nil, or_false, not_or]
      exact ⟨hemail, hpwhash, hkey, hjson⟩
    rw [d.value?_of_not_known hknown] at h
    contradiction

/-- Once a name is given, all names of fields are new exactly if that is not one of them and they were
new before. -/
theorem Draft.forall_new_iff {fields : List (String × String)} {d d' : Draft} {name value : String}
    (hgiven : d'.value? name = some value)
    (hothers : ∀ other, other ≠ name → d'.value? other = d.value? other) :
    (∀ field ∈ fields, d'.value? field.1 = none) ↔
      name ∉ fields.map (·.1) ∧ ∀ field ∈ fields, d.value? field.1 = none := by
  constructor
  · intro hnew
    have hne : ∀ field ∈ fields, field.1 ≠ name := by
      intro field hfield heq
      have hnone := hnew field hfield
      rw [heq, hgiven] at hnone
      contradiction
    refine ⟨fun hname => ?_, fun field hfield => ?_⟩
    · obtain ⟨field, hfield, heq⟩ := List.mem_map.1 hname
      exact hne field hfield heq
    · rw [← hothers _ (hne field hfield)]
      exact hnew field hfield
  · rintro ⟨hname, hnew⟩ field hfield
    rw [hothers _ fun heq => hname (List.mem_map.2 ⟨field, hfield, heq⟩)]
    exact hnew field hfield

/-- All fields are taken exactly if no known name comes twice and none is given yet. -/
theorem Draft.exists_assignAll_iff {fields : List (String × String)} {d : Draft} :
    (∃ d', d.assignAll fields = .ok d') ↔
      ((fields.map (·.1)).filter (· ∈ known)).Nodup ∧ ∀ field ∈ fields, d.value? field.1 = none := by
  induction fields generalizing d with
  | nil => exact iff_of_true ⟨d, rfl⟩ ⟨.nil, fun _ h => absurd h List.not_mem_nil⟩
  | cons field fields ih =>
    obtain ⟨name, value⟩ := field
    rw [List.map_cons, assignAll]
    cases hgiven : d.value? name with
    | some _ =>
      rw [Draft.assign_of_given (by rw [hgiven]; rfl)]
      refine iff_of_false (fun ⟨d', h⟩ => by contradiction) fun h => ?_
      have hnew := h.2 (name, value) List.mem_cons_self
      rw [hgiven] at hnew
      contradiction
    | none =>
      obtain ⟨d', hassign, hvalue, hothers⟩ := Draft.assign_of_new hgiven value
      rw [hassign]
      simp only [ih, List.forall_mem_cons, hgiven, true_and]
      by_cases hknown : name ∈ known
      · have hmem : name ∈ (fields.map (·.1)).filter (· ∈ known) ↔ name ∈ fields.map (·.1) := by
          rw [List.mem_filter, and_iff_left (by simpa using hknown)]
        rw [List.filter_cons_of_pos (by simpa using hknown), List.nodup_cons, hmem,
          Draft.forall_new_iff (hvalue hknown) hothers, and_left_comm, and_assoc]
      · have hsame : ∀ other, d'.value? other = d.value? other := by
          intro other
          by_cases heq : other = name
          · rw [heq, value?_of_not_known d' hknown, hgiven]
          · exact hothers other heq
        rw [List.filter_cons_of_neg (by simpa using hknown)]
        simp only [hsame]

theorem Draft.value?_blank (name : String) : Draft.value? {} name = none := by
  unfold value?
  split <;> rfl

/-- Parameters are read from a query exactly if no known name comes twice in it. -/
theorem exists_ofQuery_iff {query : Bytes} :
    (∃ p, ofQuery query = .ok p) ↔ (((pairs query).map (·.1)).filter (· ∈ known)).Nodup := by
  have hdraft : (∃ p, ofQuery query = .ok p) ↔ ∃ d, Draft.assignAll {} (pairs query) = .ok d := by
    unfold ofQuery
    cases Draft.assignAll {} (pairs query) with
    | ok d => exact iff_of_true ⟨_, rfl⟩ ⟨_, rfl⟩
    | error name => exact iff_of_false (fun ⟨_, h⟩ => by contradiction) fun ⟨_, h⟩ => by contradiction
  rw [hdraft, Draft.exists_assignAll_iff]
  exact and_iff_left fun field _ => Draft.value?_blank field.1

/-- The value that is given under a name, or the empty text. -/
def given (fields : List (String × String)) (name : String) : String :=
  (fields.lookup name).getD ""

/-- The parameters of a query that gives each name once are the values under their names. -/
theorem ofQuery_of_isQuery {fields : List (String × String)} {query : Bytes}
    (h : IsQuery fields query) (hnodup : (fields.map (·.1)).Nodup) :
    ofQuery query = .ok
      ⟨given fields "email", given fields "pwhash", given fields "key", given fields "json"⟩ := by
  obtain ⟨d, hd, hvalues⟩ := Draft.assignAll_of_nodup hnodup fun field _ =>
    Draft.value?_blank field.1
  have hgiven : ∀ name ∈ known, given fields name = (d.value? name).getD "" := by
    intro name hname
    rw [hvalues name hname, Draft.value?_blank, Option.or_none, given]
  rw [ofQuery, pairs_of_isQuery h, hd, hgiven "email" (by decide), hgiven "pwhash" (by decide),
    hgiven "key" (by decide), hgiven "json" (by decide)]
  rfl

end AuthVault.Http.Params
