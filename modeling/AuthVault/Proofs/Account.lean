import AuthVault.Account
import AuthVault.Proofs.Backend.Records

/-!
# What the operations on accounts do

Each operation of an identity space reads the account of an email and then writes at most the entry
of that email. So it is atomic, and what it answers and leaves is told by the account found
(`on_insert`, `on_replace`, `on_delete`, `answer_checkPassword_eq_ok_iff`).
-/

namespace AuthVault.IdentitySpace

open AuthVault.Action Contents

variable {space : IdentitySpace} {c : Contents} {email password : String} {account : Account}

theorem readOnly_load (space : IdentitySpace) (email : String) : (space.load email).ReadOnly :=
  Backend.readOnly_getRecord _ _

theorem readOnly_get (space : IdentitySpace) (email : String) : (space.get email).ReadOnly := by
  apply (readOnly_load space email).bind
  intro found
  cases found with
  | none => exact readOnly_throw _
  | some account => exact readOnly_pure _

theorem answer_get (c : Contents) : (space.get email).answer c =
    match (space.load email).answer c with
    | .ok (some account) => .ok account
    | .ok none => .error (.notFound (accountSubject email))
    | .error e => .error e := by
  rcases h : (space.load email).answer c with e | _ | account
  · rw [answer, get, (readOnly_load space email).on_error h]
  · rw [answer, get, (readOnly_load space email).on_ok h]
    rfl
  · rw [answer, get, (readOnly_load space email).on_ok h]
    rfl

theorem answer_get_eq_ok_iff :
    (space.get email).answer c = .ok account ↔
      (space.load email).answer c = .ok (some account) := by
  rw [answer_get]
  rcases (space.load email).answer c with e | _ | found
  · exact ⟨fun h => by contradiction, fun h => by contradiction⟩
  · exact ⟨fun h => by contradiction, fun h => by cases Except.ok.inj h⟩
  · exact ⟨fun h => by rw [Except.ok.inj h], fun h => by rw [Option.some.inj (Except.ok.inj h)]⟩

/-! ### Passwords -/

theorem readOnly_checkPassword (space : IdentitySpace) (email password : String) :
    (space.checkPassword email password).ReadOnly := by
  apply (readOnly_get space email).bind
  intro account
  cases h : account.credential.verify password with
  | true => simpa only [h, Bool.not_true, Bool.false_eq_true, if_false] using readOnly_pure ()
  | false => simpa only [h, Bool.not_false, if_true] using readOnly_throw _

theorem answer_checkPassword (c : Contents) : (space.checkPassword email password).answer c =
    match (space.load email).answer c with
    | .ok (some account) =>
      if account.credential.verify password then .ok () else .error (.invalidCredential email)
    | .ok none => .error (.notFound (accountSubject email))
    | .error e => .error e := by
  have hget : (space.get email).answer c = _ := answer_get c
  rcases h : (space.load email).answer c with e | _ | account
  all_goals rw [h] at hget
  · rw [answer, checkPassword, (readOnly_get space email).on_error hget]
  · rw [answer, checkPassword, (readOnly_get space email).on_error hget]
  · rw [answer, checkPassword, (readOnly_get space email).on_ok hget]
    dsimp only
    cases account.credential.verify password <;> rfl

/-- A password is accepted exactly if the stored account verifies it. -/
theorem answer_checkPassword_eq_ok_iff : (space.checkPassword email password).answer c = .ok () ↔
    ∃ account, (space.load email).answer c = .ok (some account) ∧
      account.credential.verify password = true := by
  rw [answer_checkPassword]
  rcases (space.load email).answer c with e | _ | account
  · constructor
    · intro h
      cases h
    · rintro ⟨account, h, -⟩
      cases h
  · constructor
    · intro h
      cases h
    · rintro ⟨account, h, -⟩
      cases h
  · cases hverify : account.credential.verify password with
    | true => exact ⟨fun _ => ⟨account, rfl, hverify⟩, fun _ => by simp only [hverify, if_true]⟩
    | false =>
      simp only [hverify, Bool.false_eq_true, if_false]
      constructor
      · intro h
        cases h
      · rintro ⟨found, h, hfound⟩
        rw [← Option.some.inj (Except.ok.inj h), hverify] at hfound
        cases hfound

/-- Whether a password is accepted depends on the account found only. -/
theorem answer_checkPassword_congr {c' : Contents}
    (h : (space.load email).answer c' = (space.load email).answer c) :
    (space.checkPassword email password).answer c'
      = (space.checkPassword email password).answer c := by
  rw [answer_checkPassword, answer_checkPassword, h]

/-! ### Changes -/

theorem atomic_insert (space : IdentitySpace) (account : Account) :
    (space.insert account).Atomic := by
  apply (readOnly_load space account.email).then
  intro found
  cases found with
  | none => exact Backend.atomic_put _ _ _
  | some found => exact (readOnly_throw _).atomic

theorem atomic_replace (space : IdentitySpace) (account : Account) :
    (space.replace account).Atomic := by
  apply (readOnly_load space account.email).then
  intro found
  cases found with
  | none => exact (readOnly_throw _).atomic
  | some found => exact Backend.atomic_put _ _ _

theorem atomic_delete (space : IdentitySpace) (email : String) : (space.delete email).Atomic := by
  apply (readOnly_load space email).then
  intro found
  cases found with
  | none => exact (readOnly_throw _).atomic
  | some found => exact Backend.atomic_delete _ _

/-- An account is stored exactly if there is none of its email. -/
theorem on_insert (space : IdentitySpace) (account : Account) (c : Contents) :
    (space.insert account).on c =
    match (space.load account.email).answer c with
    | .ok none =>
      (.ok (), c.write space.name (Bytes.ofText account.email) (Record.encode account))
    | .ok (some _) => (.error (.alreadyExists (accountSubject account.email)), c)
    | .error e => (.error e, c) := by
  have hread := readOnly_load space account.email
  rcases h : (space.load account.email).answer c with e | _ | found
  · rw [insert, hread.on_error h]
  · rw [insert, hread.on_ok h]
    exact Backend.on_put (Backend.has_of_answer_getRecord h) _ _
  · rw [insert, hread.on_ok h]
    rfl

/-- An account is replaced exactly if there is one of its email. -/
theorem on_replace (space : IdentitySpace) (account : Account) (c : Contents) :
    (space.replace account).on c =
    match (space.load account.email).answer c with
    | .ok (some _) =>
      (.ok (), c.write space.name (Bytes.ofText account.email) (Record.encode account))
    | .ok none => (.error (.notFound (accountSubject account.email)), c)
    | .error e => (.error e, c) := by
  have hread := readOnly_load space account.email
  rcases h : (space.load account.email).answer c with e | _ | found
  · rw [replace, hread.on_error h]
  · rw [replace, hread.on_ok h]
    rfl
  · rw [replace, hread.on_ok h]
    exact Backend.on_put (Backend.has_of_answer_getRecord h) _ _

/-- An account is removed exactly if there is one. -/
theorem on_delete (space : IdentitySpace) (email : String) (c : Contents) :
    (space.delete email).on c =
    match (space.load email).answer c with
    | .ok (some _) => (.ok (), c.remove space.name (Bytes.ofText email))
    | .ok none => (.error (.notFound (accountSubject email)), c)
    | .error e => (.error e, c) := by
  have hread := readOnly_load space email
  rcases h : (space.load email).answer c with e | _ | found
  · rw [delete, hread.on_error h]
  · rw [delete, hread.on_ok h]
    rfl
  · rw [delete, hread.on_ok h]
    exact Backend.on_delete (Backend.has_of_answer_getRecord h) _

/-- A registration stores an account exactly if there is none of its email. -/
theorem on_createSeeded (space : IdentitySpace) (email password seed : String) (c : Contents) :
    (space.createSeeded email password seed).on c =
      let account : Account := ⟨email, .register password seed, none⟩
      match (space.load email).answer c with
      | .ok none => (.ok account, c.write space.name (Bytes.ofText email) (Record.encode account))
      | .ok (some _) => (.error (.alreadyExists (accountSubject email)), c)
      | .error e => (.error e, c) := by
  have hinsert := on_insert space ⟨email, .register password seed, none⟩ c
  have hsteady := (atomic_insert space ⟨email, .register password seed, none⟩).steady
  rcases h : (space.load email).answer c with e | _ | found
  all_goals simp only [h] at hinsert
  · exact on_bind_error hsteady hinsert
  · exact on_bind_ok hsteady hinsert
  · exact on_bind_error hsteady hinsert

theorem atomic_createSeeded (space : IdentitySpace) (email password seed : String) :
    (space.createSeeded email password seed).Atomic := by
  unfold createSeeded
  exact (atomic_insert space _).map _

/-! ### Changes in a backend with faults -/

variable {P : String → Bytes → Prop}

theorem load_of_insert_ok {b : Backend} (h : ((space.insert account).run b).1 = .ok ()) :
    (space.load account.email).answer b.contents = .ok none := by
  have hon := (atomic_insert space account).on_of_ok h
  rw [on_insert] at hon
  rcases hload : (space.load account.email).answer b.contents with e | _ | found
  · rw [hload] at hon
    cases congrArg Prod.fst hon
  · rfl
  · rw [hload] at hon
    cases congrArg Prod.fst hon

theorem insert_of_ok {b : Backend} (h : ((space.insert account).run b).1 = .ok ()) :
    (space.load account.email).answer b.contents = .ok none ∧
      ((space.insert account).run b).2.contents = b.contents.write space.name
        (Bytes.ofText account.email) (Record.encode account) := by
  have hload := load_of_insert_ok h
  have hon := (atomic_insert space account).on_of_ok h
  rw [on_insert, hload] at hon
  exact ⟨hload, (congrArg Prod.snd hon).symm⟩

theorem delete_of_ok {b : Backend} (h : ((space.delete email).run b).1 = .ok ()) :
    (∃ account, (space.load email).answer b.contents = .ok (some account)) ∧
      ((space.delete email).run b).2.contents
        = b.contents.remove space.name (Bytes.ofText email) := by
  have hon := (atomic_delete space email).on_of_ok h
  rw [on_delete] at hon
  rcases hload : (space.load email).answer b.contents with e | _ | found
  all_goals rw [hload] at hon
  · cases congrArg Prod.fst hon
  · cases congrArg Prod.fst hon
  · exact ⟨⟨found, rfl⟩, (congrArg Prod.snd hon).symm⟩

/-- The removal of an account that is there fails only for a fault. -/
theorem struck_delete {b : Backend} {e : AuthError}
    (hload : (space.load email).answer b.contents = .ok (some account))
    (herror : ((space.delete email).run b).1 = .error e) : (space.delete email).Struck b := by
  have hon := on_delete space email b.contents
  rw [hload] at hon
  exact (atomic_delete space email).struck_of_error (congrArg Prod.fst hon) herror

/-! ### Faults that wait for other calls -/

section Ignores

variable {faults : List Fault}

theorem ignores_get (h : ∀ f ∈ faults, ¬ (f.call = .get ∧ f.space = space.name)) (email : String) :
    (space.get email).Ignores faults := by
  apply (Backend.ignores_getRecord h email).bind (readOnly_load space email).steady
  intro found
  cases found with
  | none => exact ignores_throw _ faults
  | some account => exact ignores_pure account faults

theorem ignores_insert (hget : ∀ f ∈ faults, ¬ (f.call = .get ∧ f.space = space.name))
    (hput : ∀ f ∈ faults, ¬ (f.call = .put ∧ f.space = space.name)) (account : Account) :
    (space.insert account).Ignores faults := by
  apply (Backend.ignores_getRecord hget _).bind (readOnly_load space account.email).steady
  intro found
  cases found with
  | none => exact Backend.ignores_put hput _ _
  | some found => exact ignores_throw _ faults

theorem ignores_delete (hget : ∀ f ∈ faults, ¬ (f.call = .get ∧ f.space = space.name))
    (hdelete : ∀ f ∈ faults, ¬ (f.call = .delete ∧ f.space = space.name)) (email : String) :
    (space.delete email).Ignores faults := by
  apply (Backend.ignores_getRecord hget _).bind (readOnly_load space email).steady
  intro found
  cases found with
  | none => exact ignores_throw _ faults
  | some account => exact Backend.ignores_delete hdelete _

end Ignores

/-! ### Entries that differ -/

theorem differ_insert {b : Backend} (h : (space.load account.email).answer b.contents = .ok none →
    P space.name (Bytes.ofText account.email)) :
    Differ P b.contents ((space.insert account).run b).2.contents := by
  refine (atomic_insert space account).differ ?_
  rw [on_insert]
  rcases hload : (space.load account.email).answer b.contents with e | _ | found
  · exact .refl _
  · exact .write (h hload) _
  · exact .refl _

theorem differ_delete {b : Backend} (h : ∀ account,
      (space.load email).answer b.contents = .ok (some account) →
        P space.name (Bytes.ofText email)) :
    Differ P b.contents ((space.delete email).run b).2.contents := by
  refine (atomic_delete space email).differ ?_
  rw [on_delete]
  rcases hload : (space.load email).answer b.contents with e | _ | found
  · exact .refl _
  · exact .refl _
  · exact .remove (h found hload)

end AuthVault.IdentitySpace
