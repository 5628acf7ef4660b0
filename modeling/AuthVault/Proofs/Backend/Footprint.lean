import AuthVault.Proofs.Backend.Records

/-!
# Footprints

An action keeps to entries of a kind if it changes no others and what it answers and leaves there
depends on no others (`Local`). Primitive calls keep to the entry that they name; a sequence keeps to
the entries to which its parts keep, each at the contents that it comes to (`Local.bind`). Two actions
that keep to entries of two kinds without a common entry do not notice each other, whichever comes
first (`Apart.of_local`).
-/

namespace AuthVault

open AuthVault.Action Contents

variable {α β : Type} {F G : String → Bytes → Prop} {c c' : Contents} {space : String} {key : Bytes}

namespace Contents

/-- Contents with the same namespaces that agree in the entries of a kind. -/
abbrev Agree (F : String → Bytes → Prop) (c c' : Contents) : Prop :=
  Differ (fun s k => ¬ F s k) c c'

theorem Agree.value?_eq (h : Agree F c c') {s : String} {k : Bytes} (hF : F s k) :
    c'.value? s k = c.value? s k :=
  Differ.value?_eq h (not_not_intro hF)

/-- What differs in entries of one kind agrees in those of another. -/
theorem Agree.of_differ (h : Differ F c c') (hapart : ∀ s k, F s k → ¬ G s k) : Agree G c c' :=
  h.mono hapart

theorem Agree.write (h : Agree F c c') (hhas : c.Has space) (key value : Bytes) :
    Agree F (c.write space key value) (c'.write space key value) := by
  refine ⟨fun s => ?_, fun s k hne hF => hne ?_⟩
  · rw [has_write, has_write, h.has_iff]
  · rw [value?_write hhas, value?_write ((h.has_iff space).2 hhas), h.value?_eq hF]

theorem Agree.remove (h : Agree F c c') (space : String) (key : Bytes) :
    Agree F (c.remove space key) (c'.remove space key) := by
  refine ⟨fun s => ?_, fun s k hne hF => hne ?_⟩
  · rw [has_remove, has_remove, h.has_iff]
  · rw [value?_remove, value?_remove, h.value?_eq hF]

end Contents

namespace Action

/-- What an action does to contents that agree with given ones in the entries of a kind. -/
structure Keeps (F : String → Bytes → Prop) (x : Action α) (c c' : Contents) : Prop where
  answer_eq : x.answer c' = x.answer c
  differ : Differ F c' (x.on c').2
  agree : Agree F (x.on c).2 (x.on c').2

/-- From contents on, an action keeps to the entries of a kind. -/
def Local (F : String → Bytes → Prop) (x : Action α) (c : Contents) : Prop :=
  ∀ c', Agree F c c' → Keeps F x c c'

theorem Local.differ {x : Action α} (h : Local F x c) : Differ F c (x.on c).2 :=
  (h c (.refl c)).differ

theorem local_of_readOnly {x : Action α} (hx : x.ReadOnly)
    (hanswer : ∀ c', Agree F c c' → x.answer c' = x.answer c) : Local F x c := by
  intro c' h
  refine ⟨hanswer c' h, ?_, ?_⟩
  · rw [hx.on_snd]
    exact .refl c'
  · rw [hx.on_snd, hx.on_snd]
    exact h

theorem local_pure (a : α) (c : Contents) : Local F (pure a : Action α) c :=
  local_of_readOnly (readOnly_pure a) fun _ _ => rfl

theorem local_throw (e : AuthError) (c : Contents) : Local F (throw e : Action α) c :=
  local_of_readOnly (readOnly_throw e) fun _ _ => rfl

/-- A sequence whose second part keeps to the entries of the first, where it comes to. -/
theorem Local.bind {x : Action α} {f : α → Action β} (hx : Local F x c) (hsteady : x.Steady)
    (hf : ∀ a c₁, x.on c = (.ok a, c₁) → Local F (f a) c₁) : Local F (x >>= f) c := by
  intro c' h
  obtain ⟨hanswer, hdiffer, hagree⟩ := hx c' h
  unfold answer at hanswer
  cases hon : x.on c with
  | mk r c₁ =>
    cases hon' : x.on c' with
    | mk r' c₂ =>
      rw [hon, hon'] at hanswer hagree
      rw [hon'] at hdiffer
      obtain rfl : r' = r := hanswer
      cases r' with
      | error e =>
        refine ⟨?_, ?_, ?_⟩
        all_goals simp only [answer, on_bind_error hsteady hon, on_bind_error hsteady hon']
        · exact hdiffer
        · exact hagree
      | ok a =>
        obtain ⟨hanswer₁, hdiffer₁, hagree₁⟩ := hf a c₁ hon c₂ hagree
        refine ⟨?_, ?_, ?_⟩
        all_goals simp only [answer, on_bind_ok hsteady hon, on_bind_ok hsteady hon']
        · exact hanswer₁
        · exact hdiffer.trans hdiffer₁
        · exact hagree₁

/-- A sequence that goes on, after a read, with the same contents. -/
theorem Local.then {x : Action α} {f : α → Action β} (hx : Local F x c) (hread : x.ReadOnly)
    (hf : ∀ a, x.answer c = .ok a → Local F (f a) c) : Local F (x >>= f) c := by
  refine hx.bind hread.steady fun a c₁ hon => ?_
  obtain ⟨hanswer, rfl⟩ := Prod.mk.inj ((hread.on_eq c).symm.trans hon)
  exact hf a hanswer

theorem Local.map {x : Action α} (h : Local F x c) (g : α → β) : Local F (g <$> x) c := by
  intro c' hagree
  obtain ⟨hanswer, hdiffer, hleft⟩ := h c' hagree
  refine ⟨?_, ?_, ?_⟩
  · rw [answer_map, answer_map, hanswer]
  · rw [on_map]
    exact hdiffer
  · rw [on_map, on_map]
    exact hleft

/-! ### Actions that do not notice each other -/

/-- Two actions answer as they do alone, and leave the same, whichever comes first. -/
structure Apart (x : Action α) (y : Action β) (c : Contents) : Prop where
  answer_fst : x.answer (y.on c).2 = x.answer c
  answer_snd : y.answer (x.on c).2 = y.answer c
  contents : (y.on (x.on c).2).2 = (x.on (y.on c).2).2

/-- What one action leaves in its entries is there also after the other, and the entries of neither
are as they were. -/
theorem Apart.of_local {x : Action α} {y : Action β} (hx : Local F x c) (hy : Local G y c)
    (hapart : ∀ s k, F s k → ¬ G s k) : Apart x y c := by
  have hfst : Keeps F x c (y.on c).2 := hx _ (.of_differ hy.differ fun s k hG hF => hapart s k hF hG)
  have hsnd : Keeps G y c (x.on c).2 := hy _ (.of_differ hx.differ hapart)
  refine ⟨hfst.answer_eq, hsnd.answer_eq, ext_value? (fun s => ?_) fun s k => ?_⟩
  · rw [hsnd.differ.has_iff, hx.differ.has_iff, hfst.differ.has_iff, hy.differ.has_iff]
  · by_cases hF : F s k
    · rw [hsnd.differ.value?_eq (hapart s k hF), hfst.agree.value?_eq hF]
    · rw [hfst.differ.value?_eq hF]
      by_cases hG : G s k
      · exact hsnd.agree.value?_eq hG
      · rw [hsnd.differ.value?_eq hG, hx.differ.value?_eq hF, hy.differ.value?_eq hG]

/-- Of two actions that do not notice each other, the order makes no difference to a backend where no
fault is armed. -/
theorem Apart.run {x : Action α} {y : Action β} (h : Apart x y c) (hx : x.Steady) (hy : y.Steady) :
    (x.run (y.run ⟨c, []⟩).2).1 = (x.run ⟨c, []⟩).1 ∧
      (y.run (x.run ⟨c, []⟩).2).1 = (y.run ⟨c, []⟩).1 ∧
      (y.run (x.run ⟨c, []⟩).2).2 = (x.run (y.run ⟨c, []⟩).2).2 := by
  simp only [run_eq_on hx, run_eq_on hy, h.contents]
  exact ⟨h.answer_fst, h.answer_snd, trivial⟩

end Action

/-! ### Primitive calls and records -/

namespace Backend

theorem local_put (h : F space key) (value : Bytes) (c : Contents) :
    Local F (put space key value) c := by
  intro c' hagree
  by_cases hhas : c.Has space
  · have hhas' : c'.Has space := (hagree.has_iff space).2 hhas
    refine ⟨?_, ?_, ?_⟩
    all_goals simp only [answer, on_put hhas, on_put hhas']
    · exact .write h value
    · exact hagree.write hhas key value
  · have hhas' : ¬ c'.Has space := mt (hagree.has_iff space).1 hhas
    refine ⟨?_, ?_, ?_⟩
    all_goals simp only [answer, on_put_of_not_has hhas, on_put_of_not_has hhas']
    · exact .refl c'
    · exact hagree

theorem local_delete (h : F space key) (c : Contents) : Local F (delete space key) c := by
  intro c' hagree
  by_cases hhas : c.Has space
  · have hhas' : c'.Has space := (hagree.has_iff space).2 hhas
    refine ⟨?_, ?_, ?_⟩
    all_goals simp only [answer, on_delete hhas, on_delete hhas']
    · exact .remove h
    · exact hagree.remove space key
  · have hhas' : ¬ c'.Has space := mt (hagree.has_iff space).1 hhas
    refine ⟨?_, ?_, ?_⟩
    all_goals simp only [answer, on_delete_of_not_has hhas, on_delete_of_not_has hhas']
    · exact .refl c'
    · exact hagree

theorem local_getRecord [Record α] {key : String} (h : F space (Bytes.ofText key)) (c : Contents) :
    Local F (getRecord space key : Action (Option α)) c :=
  local_of_readOnly (readOnly_getRecord space key) fun _ hagree =>
    answer_getRecord_of_differ hagree (not_not_intro h)

end Backend

end AuthVault
