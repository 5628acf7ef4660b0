import AuthVault.Config

/-!
# Options on the command line

Options are given by pairs of a flag and a value behind the name of the program (`spelled`). Each has
the value of its first pair, or else what the environment holds, so that neither the order of pairs of
different flags nor what follows the first pair of a flag matters (`ofSources_spelled`). That takes
values that are not mistaken for flags: a flag is looked for at every argument, be it a flag or a value,
and so a value that is the flag of an option hides the pairs of that option behind it (`Clear`,
`ofSources_mistaken`).
-/

namespace AuthVault.Config

variable {s : Setting} {name : String} {pairs : List (Setting × String)}

/-! ### Pairs -/

/-- The arguments that give values to options. -/
def spelled (pairs : List (Setting × String)) : List String :=
  pairs.flatMap fun p => [p.1.flag, p.2]

/-- The value that an option is given first. -/
def given? (pairs : List (Setting × String)) (s : Setting) : Option String :=
  (pairs.find? fun p => p.1 = s).map (·.2)

/-- No value is mistaken for the flag of an option: none in front of the first pair of the option is
that flag, unless it is the last argument. -/
def Clear (pairs : List (Setting × String)) (s : Setting) : Prop :=
  ∀ p ∈ pairs.dropLast.takeWhile (fun p => p.1 ≠ s), p.2 ≠ s.flag

theorem flag_inj {s t : Setting} : s.flag = t.flag ↔ s = t := by
  cases s <;> cases t <;> decide

theorem given?_cons (t : Setting) (value : String) (pairs : List (Setting × String)) :
    given? ((t, value) :: pairs) s = if t = s then some value else given? pairs s := by
  by_cases h : t = s
  · rw [given?, List.find?_cons_of_pos (by simpa using h), if_pos h]
    rfl
  · rw [given?, List.find?_cons_of_neg (by simpa using h), if_neg h]
    rfl

/-- The first pair of an option is the first of its pairs. -/
theorem given?_eq (pairs : List (Setting × String)) (s : Setting) :
    given? pairs s = (pairs.filter fun p => p.1 = s).head?.map (·.2) := by
  rw [given?, List.head?_filter]

theorem given?_eq_none_iff : given? pairs s = none ↔ s ∉ pairs.map (·.1) := by
  rw [given?, Option.map_eq_none_iff, List.find?_eq_none]
  simp only [List.mem_map, decide_eq_true_eq, not_exists, not_and]

/-- What is given again does not count. -/
theorem given?_append_of_known {more : List (Setting × String)}
    (h : ∀ p ∈ more, p.1 ∈ pairs.map (·.1)) (s : Setting) :
    given? (pairs ++ more) s = given? pairs s := by
  have happend : given? (pairs ++ more) s = (given? pairs s).or (given? more s) := by
    rw [given?, List.find?_append, Option.map_or]
    rfl
  rw [happend]
  cases hfirst : given? pairs s with
  | some value => rfl
  | none =>
    apply given?_eq_none_iff.2
    intro hs
    obtain ⟨p, hp, rfl⟩ := List.mem_map.1 hs
    exact given?_eq_none_iff.1 hfirst (h p hp)

theorem clear_cons {t : Setting} {value : String} {p : Setting × String}
    (h : Clear ((t, value) :: p :: pairs) s) (ht : t ≠ s) : value ≠ s.flag ∧ Clear (p :: pairs) s := by
  have hfirst : ((t, value) :: p :: pairs).dropLast.takeWhile (fun p => p.1 ≠ s)
      = (t, value) :: (p :: pairs).dropLast.takeWhile (fun p => p.1 ≠ s) := by
    rw [List.dropLast_cons_cons, List.takeWhile_cons_of_pos (by simpa using ht)]
  rw [Clear, hfirst] at h
  exact ⟨h (t, value) List.mem_cons_self, fun q hq => h q (List.mem_cons_of_mem _ hq)⟩

/-! ### Reading pairs -/

/-- Behind an argument that is not mistaken either, the value of an option is that of its first pair. -/
theorem argument?_spelled {value : String} (hvalue : pairs ≠ [] → value ≠ s.flag)
    (hclear : Clear pairs s) : argument? s.flag (value :: spelled pairs) = given? pairs s := by
  induction pairs generalizing value with
  | nil => rfl
  | cons p pairs ih =>
    obtain ⟨t, next⟩ := p
    have hskip : argument? s.flag (value :: t.flag :: next :: spelled pairs)
        = argument? s.flag (t.flag :: next :: spelled pairs) :=
      if_neg (hvalue (List.cons_ne_nil _ _))
    show argument? s.flag (value :: t.flag :: next :: spelled pairs) = _
    rw [hskip, argument?, given?_cons]
    by_cases ht : t = s
    · rw [if_pos ht, if_pos (ht ▸ rfl)]
    · rw [if_neg ht, if_neg fun hflag => ht (flag_inj.1 hflag)]
      cases pairs with
      | nil => rfl
      | cons q pairs =>
        obtain ⟨hnext, hrest⟩ := clear_cons hclear ht
        exact ih (fun _ => hnext) hrest

theorem pick_spelled (env : String → Option String) (hname : name ≠ s.flag) (hclear : Clear pairs s) :
    pick env (name :: spelled pairs) s = (given? pairs s).or (env s.variable) := by
  rw [pick, argument?_spelled (fun _ => hname) hclear]

/-- Every option has the value of its first pair, or else what the environment holds; pairs may change
places if those of one flag keep their order, and further pairs of the same flags may follow. -/
theorem ofSources_spelled (env : String → Option String) (hname : ∀ s : Setting, name ≠ s.flag)
    (hclear : ∀ s, Clear pairs s) :
    ofSources env (name :: spelled pairs)
        = resolve (fun s => (given? pairs s).or (env s.variable)) ∧
      (∀ pairs', (∀ s, Clear pairs' s) →
        (∀ s, (pairs'.filter fun p => p.1 = s) = pairs.filter fun p => p.1 = s) →
          ofSources env (name :: spelled pairs') = ofSources env (name :: spelled pairs)) ∧
      ∀ more, (∀ s, Clear (pairs ++ more) s) → (∀ p ∈ more, p.1 ∈ pairs.map (·.1)) →
        ofSources env (name :: spelled (pairs ++ more)) = ofSources env (name :: spelled pairs) := by
  have hpick : ∀ pairs, (∀ s, Clear pairs s) → pick env (name :: spelled pairs)
      = fun s => (given? pairs s).or (env s.variable) := fun pairs hclear =>
    funext fun s => pick_spelled env (hname s) (hclear s)
  refine ⟨by rw [ofSources, hpick pairs hclear], fun pairs' hclear' hfilter => ?_,
    fun more hmore hknown => ?_⟩
  · rw [ofSources, ofSources, hpick pairs hclear, hpick pairs' hclear']
    simp only [given?_eq, hfilter]
  · rw [ofSources, ofSources, hpick pairs hclear, hpick _ hmore]
    simp only [given?_append_of_known hknown]

/-- A flag that is given twice has its first value, and a value behind that may be the flag itself. -/
theorem ofSources_spelled_twice :
    let pairs := [(.httpPort, "9000"), (.db, "--http-port"), (.httpPort, "80")]
    (∀ s : Setting, "keygate" ≠ s.flag) ∧ (∀ s, Clear pairs s) ∧
      ofSources (fun _ => none) ("keygate" :: spelled pairs)
        = { httpPort := 9000, snapshotPath := some "--http-port" } := by
  intro pairs
  have hname : ∀ s : Setting, "keygate" ≠ s.flag := by
    intro s
    cases s <;> decide
  have hclear : ∀ s, Clear pairs s := by
    intro s
    unfold Clear
    cases s <;> decide
  refine ⟨hname, hclear, (ofSources_spelled (fun _ => none) hname hclear).1.trans ?_⟩
  decide +kernel

/-- A path that is the flag of the port hides the port that is given behind it. -/
theorem ofSources_mistaken :
    let pairs := [(.db, "--http-port"), (.httpPort, "9000")]
    (∀ s : Setting, "keygate" ≠ s.flag) ∧
      ofSources (fun _ => none) ("keygate" :: spelled pairs)
        ≠ resolve (fun s => (given? pairs s).or none) ∧
      ofSources (fun _ => none) ("keygate" :: spelled pairs)
        ≠ ofSources (fun _ => none) ("keygate" :: spelled pairs.reverse) := by
  refine ⟨?_, by decide +kernel, by decide +kernel⟩
  intro s
  cases s <;> decide

end AuthVault.Config
