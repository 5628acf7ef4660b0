import AuthVault.Http.Router
import AuthVault.Proofs.Http.Params
import Mathlib.Data.List.TakeWhile

/-!
# Targets of objects

A request target names an object by its id in percent encoding behind the path of objects, and gives
parameters in a query (`IsObjectTarget`); a scheme and an authority may stand in front. What is
escaped in it separates nothing, so a target that is accepted is taken apart where it was put
together: the path leads to the object, the id is read from its segment, and the parameters are those
of the query (`IsObjectTarget.addresses`). There is such a target for every id and all parameters
(`isObjectTarget_objectTarget`).
-/

namespace AuthVault.Http

namespace Uri

variable {path query : Bytes} {uri : Uri}

/-! ### In front of the path -/

/-- What may stand in front of a path: nothing, or a scheme and an authority. -/
inductive IsFront : Bytes → Prop
  | nil : IsFront []
  | authority {scheme authority : Bytes} (hscheme : ∀ b ∈ scheme, isSchemeByte b = true)
      (hauthority : ∀ b ∈ authority, ¬ (b = 47 ∨ b = 63 ∨ b = 35)) :
      IsFront (scheme ++ 58 :: 47 :: 47 :: authority)

/-- The slash behind an authority is found, unless the scan stops at a ninth colon before. -/
theorem scanAuthority_append {authority : Bytes} (h : ∀ b ∈ authority, ¬ (b = 47 ∨ b = 63 ∨ b = 35))
    {s t : AuthorityScan} {size : Nat} {stop : Option Nat} {rest : Bytes}
    (hscan : scanAuthority s size (authority ++ 47 :: rest) = some (t, stop)) :
    stop = some (size + authority.length) ∨ 8 ≤ t.colons := by
  induction authority generalizing s size with
  | nil =>
    rw [List.nil_append, scanAuthority, if_pos (.inl rfl)] at hscan
    exact .inl (Prod.mk.inj (Option.some.inj hscan)).2.symm
  | cons b authority ih =>
    rw [List.cons_append, scanAuthority, if_neg (h b List.mem_cons_self)] at hscan
    split at hscan
    · next hcolon =>
      rw [← (Prod.mk.inj (Option.some.inj hscan)).1]
      exact .inr hcolon.2
    · split at hscan
      · contradiction
      · rcases ih (fun x hx => h x (List.mem_cons_of_mem b hx)) hscan with hstop | hcolons
        · rw [hstop, List.length_cons, Nat.add_right_comm, Nat.add_assoc]
          exact .inl rfl
        · exact .inr hcolons

theorem authoritySize?_append {authority : Bytes} (h : ∀ b ∈ authority, ¬ (b = 47 ∨ b = 63 ∨ b = 35))
    {rest : Bytes} {n : Nat} (hsize : authoritySize? (authority ++ 47 :: rest) = some n) :
    n = authority.length := by
  unfold authoritySize? at hsize
  split at hsize
  · contradiction
  · next t stop hscan =>
    split at hsize
    · contradiction
    · next hvalid =>
      rcases scanAuthority_append h hscan with rfl | hcolons
      · rw [Option.getD_some, Nat.zero_add] at hsize
        exact (Option.some.inj hsize).symm
      · omega

theorem afterScheme_append {scheme rest : Bytes} (h : ∀ b ∈ scheme, isSchemeByte b = true)
    (hrest : rest ≠ []) :
    afterScheme (scheme ++ 58 :: 47 :: 47 :: rest) = none ∨
      afterScheme (scheme ++ 58 :: 47 :: 47 :: rest) = some (some rest) := by
  have hname : (scheme ++ 58 :: 47 :: 47 :: rest).takeWhile isSchemeByte = scheme := by
    rw [List.takeWhile_append_of_pos h, List.takeWhile_cons_of_neg (by decide), List.append_nil]
  have hlength : ¬ (scheme ++ 58 :: 47 :: 47 :: rest).length ≤ 3 := by
    have := List.length_pos_iff.2 hrest
    simp only [List.length_append, List.length_cons]
    omega
  simp only [afterScheme, hname, List.drop_left, if_neg hlength]
  split
  · exact .inl rfl
  · exact .inr rfl

theorem parse?_scheme {scheme rest : Bytes} (h : ∀ b ∈ scheme, isSchemeByte b = true)
    (hrest : rest ≠ []) (hparse : parse? (scheme ++ 58 :: 47 :: 47 :: rest) = some uri) :
    ∃ n, authoritySize? rest = some n ∧ ofPathAndQuery? (rest.drop n) = some uri := by
  have hstar : scheme ++ 58 :: 47 :: 47 :: rest ≠ [42] := by
    intro heq
    have hlength := congrArg List.length heq
    simp only [List.length_append, List.length_cons, List.length_nil] at hlength
    omega
  have hhead : (scheme ++ 58 :: 47 :: 47 :: rest).head? ≠ some 47 := by
    cases scheme with
    | nil => exact fun heq => absurd (Option.some.inj heq) (by decide)
    | cons b scheme =>
      intro heq
      have hb := h b List.mem_cons_self
      rw [Option.some.inj heq] at hb
      contradiction
  simp only [parse?, if_neg hstar, if_neg hhead] at hparse
  split at hparse
  · contradiction
  · rcases afterScheme_append h hrest with hafter | hafter
    all_goals simp only [hafter] at hparse
    · contradiction
    · split at hparse
      · contradiction
      · contradiction
      · next n _ hsize => exact ⟨n, hsize, hparse⟩

/-- The path and the query are read from what stands behind the authority. -/
theorem ofPathAndQuery?_of_parse? {front rest : Bytes} (h : IsFront front)
    (hparse : parse? (front ++ 47 :: rest) = some uri) : ofPathAndQuery? (47 :: rest) = some uri := by
  cases h with
  | nil =>
    unfold parse? at hparse
    split at hparse
    · contradiction
    · exact hparse
  | authority hscheme hauthority =>
    rw [List.append_assoc, List.cons_append, List.cons_append, List.cons_append] at hparse
    obtain ⟨n, hsize, hrest⟩ := parse?_scheme hscheme (by simp) hparse
    rw [authoritySize?_append hauthority hsize, List.drop_left] at hrest
    exact hrest

/-! ### The path and the query -/

theorem ofPathAndQuery?_path (hne : path ≠ []) (hpath : ∀ b ∈ path, b ≠ 63 ∧ b ≠ 35)
    (h : ofPathAndQuery? path = some uri) : uri = ⟨path, none⟩ := by
  have htake : path.takeWhile (fun x => x ≠ 63 ∧ x ≠ 35) = path :=
    List.takeWhile_eq_self_iff.2 fun b hb => by simpa using hpath b hb
  have hdrop : path.dropWhile (fun x => x ≠ 63 ∧ x ≠ 35) = [] :=
    List.dropWhile_eq_nil_iff.2 fun b hb => by simpa using hpath b hb
  unfold ofPathAndQuery? at h
  simp only [htake, hdrop, if_neg hne] at h
  split at h
  · exact (Option.some.inj h).symm
  · contradiction

theorem ofPathAndQuery?_query (hne : path ≠ []) (hpath : ∀ b ∈ path, b ≠ 63 ∧ b ≠ 35)
    (hquery : 35 ∉ query) (h : ofPathAndQuery? (path ++ 63 :: query) = some uri) :
    uri = ⟨path, some query⟩ := by
  have hpath' : ∀ b ∈ path, decide (b ≠ 63 ∧ b ≠ 35) = true := fun b hb => by simpa using hpath b hb
  have htake : (path ++ 63 :: query).takeWhile (fun x => x ≠ 63 ∧ x ≠ 35) = path := by
    rw [List.takeWhile_append_of_pos hpath', List.takeWhile_cons_of_neg (by decide), List.append_nil]
  have hdrop : (path ++ 63 :: query).dropWhile (fun x => x ≠ 63 ∧ x ≠ 35) = 63 :: query := by
    rw [List.dropWhile_append_of_pos hpath', List.dropWhile_cons_of_neg (by decide)]
  have hfragment : query.takeWhile (fun x => x ≠ 35) = query :=
    List.takeWhile_eq_self_iff.2 fun b hb => by simpa using fun heq : b = 35 => hquery (heq ▸ hb)
  unfold ofPathAndQuery? at h
  simp only [htake, hdrop, hfragment, if_neg hne] at h
  split at h
  · exact (Option.some.inj h).symm
  · contradiction

end Uri

variable {id : String} {fields : List (String × String)} {target : Bytes} {uri : Uri}

/-! ### Paths of objects -/

theorem objectPath_eq : Route.objectPath = [47, 111, 98, 106, 101, 99, 116, 47] := by
  decide +kernel

theorem ofPath?_objectPath {segment : Bytes} (hne : segment ≠ []) (hslash : 47 ∉ segment) :
    Route.ofPath? (Route.objectPath ++ segment) = some (.object segment) := by
  have hfixed : ∀ r ∈ Route.fixed, r.1.take 8 ≠ Route.objectPath := by decide +kernel
  have hfind : Route.fixed.find? (fun r => r.1 == Route.objectPath ++ segment) = none := by
    rw [List.find?_eq_none]
    intro r hr heq
    apply hfixed r hr
    rw [beq_iff_eq.1 heq, objectPath_eq]
    rfl
  unfold Route.ofPath?
  simp only [hfind, List.drop_left, List.take_left]
  rw [if_pos ⟨trivial, hne, by simpa using hslash⟩]

theorem objectId_of_encodes {reserved segment : Bytes}
    (h : Percent.Encodes reserved (Bytes.ofText id) segment) : objectId segment = .ok id := by
  rw [objectId, h.decode_eq, Bytes.text?_ofText]

/-! ### Targets of objects -/

/-- A target that names an object and gives parameters; without any, there need not be a query. A
number sign, a slash or a question mark would end the id, so they are escaped. -/
inductive IsObjectTarget (id : String) : (fields : List (String × String)) → Bytes → Prop
  | plain {front segment : Bytes} (hfront : Uri.IsFront front)
      (hsegment : Percent.Encodes [35, 47, 63] (Bytes.ofText id) segment) :
      IsObjectTarget id [] (front ++ (Route.objectPath ++ segment))
  | query {fields : List (String × String)} {front segment query : Bytes}
      (hfront : Uri.IsFront front)
      (hsegment : Percent.Encodes [35, 47, 63] (Bytes.ofText id) segment)
      (hquery : Params.IsQuery fields query) :
      IsObjectTarget id fields (front ++ (Route.objectPath ++ segment ++ 63 :: query))

/-- A target that names an object and gives parameters, with all but letters and digits escaped. -/
def objectTarget (id : String) (fields : List (String × String)) : Bytes :=
  Route.objectPath ++ Percent.encode (Bytes.ofText id) ++ 63 :: Params.queryOf fields

theorem isObjectTarget_objectTarget (id : String) (fields : List (String × String)) :
    IsObjectTarget id fields (objectTarget id fields) :=
  .query .nil (Percent.encodes_encode (by decide +kernel) _) (Params.isQuery_queryOf fields)

/-- A target that leads to an object, with the values that are given under the names of parameters. -/
structure Addresses (uri : Uri) (id : String) (fields : List (String × String)) : Prop where
  route : ∃ segment, Route.ofPath? uri.path = some (.object segment) ∧ objectId segment = .ok id
  params : params uri = .ok ⟨Params.given fields "email", Params.given fields "pwhash",
    Params.given fields "key", Params.given fields "json"⟩

/-- Neither a query nor a fragment begins inside the path of an object. -/
theorem ne_of_mem_path {segment : Bytes}
    (h : Percent.Encodes [35, 47, 63] (Bytes.ofText id) segment) :
    ∀ b ∈ Route.objectPath ++ segment, b ≠ 63 ∧ b ≠ 35 := by
  have hobject : ∀ b ∈ Route.objectPath, b ≠ 63 ∧ b ≠ 35 := by
    rw [objectPath_eq]
    decide +kernel
  intro b hb
  rcases List.mem_append.1 hb with hb | hb
  · exact hobject b hb
  · have hquery : (63 : UInt8) ∉ segment := h.not_mem (by decide)
    have hfragment : (35 : UInt8) ∉ segment := h.not_mem (by decide)
    exact ⟨fun heq => hquery (heq ▸ hb), fun heq => hfragment (heq ▸ hb)⟩

theorem addresses_of_encodes {segment query : Bytes} (hid : id ≠ "")
    (hsegment : Percent.Encodes [35, 47, 63] (Bytes.ofText id) segment)
    (hquery : Params.IsQuery fields query) (hdistinct : (fields.map (·.1)).Nodup)
    (hpath : uri.path = Route.objectPath ++ segment) (hgiven : uri.query.getD [] = query) :
    Addresses uri id fields := by
  have hraw : Bytes.ofText id ≠ [] := fun heq => hid (Bytes.ofText_inj.1 heq)
  refine ⟨⟨segment, ?_, objectId_of_encodes hsegment⟩, ?_⟩
  · rw [hpath]
    exact ofPath?_objectPath (hsegment.ne_nil hraw) (hsegment.not_mem (by decide))
  · rw [params, hgiven, Params.ofQuery_of_isQuery hquery hdistinct]

/-- A target that is accepted leads to the object that it names. -/
theorem IsObjectTarget.addresses (h : IsObjectTarget id fields target) (hid : id ≠ "")
    (hdistinct : (fields.map (·.1)).Nodup) (huri : Uri.parse? target = some uri) :
    Addresses uri id fields := by
  have hne : ∀ segment, Route.objectPath ++ segment ≠ [] := by
    rw [objectPath_eq]
    exact fun segment => List.cons_ne_nil _ _
  cases h with
  | @plain front segment hfront hsegment =>
    have hrest : Uri.ofPathAndQuery? (Route.objectPath ++ segment) = some uri := by
      rw [objectPath_eq] at huri ⊢
      exact Uri.ofPathAndQuery?_of_parse? hfront huri
    obtain rfl := Uri.ofPathAndQuery?_path (hne segment) (ne_of_mem_path hsegment) hrest
    exact addresses_of_encodes hid hsegment .nil hdistinct rfl rfl
  | @query fields front segment query hfront hsegment hquery =>
    have hrest : Uri.ofPathAndQuery? (Route.objectPath ++ segment ++ 63 :: query) = some uri := by
      rw [objectPath_eq] at huri ⊢
      exact Uri.ofPathAndQuery?_of_parse? hfront huri
    obtain rfl := Uri.ofPathAndQuery?_query (hne segment) (ne_of_mem_path hsegment)
      hquery.not_mem hrest
    exact addresses_of_encodes hid hsegment hquery hdistinct rfl rfl

end AuthVault.Http
