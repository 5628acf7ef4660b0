import AuthVault.Proofs.Service.Run

/-!
# Keys of admins

A key that has been issued for an email authenticates the account stored then, until it is used to
delete its admin or is issued for another email (`checkAdmin_of_issues`). It may be issued again,
since a key is minted from a password and an instant only: two admins registered with one password
at one instant share their key, and the index leads to the later one (`checkAdmin_twins`).

Issuing a key stores an account and an entry of the index (`Issues.enrolled`), deleting an admin
takes both away, and no other operation changes an entry of an admin (`admins_step`). So as long as
the index leads from a key to an account (`Leads`), an operation changes that only if it deletes the
admin of that key, or issues the same key (`Leads.after_cons`).
-/

namespace AuthVault.Service

open AuthVault.Action Contents
open IdentitySpace (users admins)

variable {c c' : Contents} {past later : List (Operation × Moment)} {step : Operation × Moment}
  {moment : Moment} {now : Instant} {email password key : String} {account : Account}

/-- An operation answers with a key that it has issued for an email. -/
inductive Issues (past : List (Operation × Moment)) : Operation × Moment → String → String → Prop
  | bootstrap {moment : Moment} {email password key : String}
      (answer : reply past (.bootstrapAdmin email password, moment) = .ok (.newKey (some key))) :
      Issues past (.bootstrapAdmin email password, moment) email key
  | create {moment : Moment} {caller email password key : String}
      (answer : reply past (.createAdmin caller email password, moment) = .ok (.key key)) :
      Issues past (.createAdmin caller email password, moment) email key

/-! ### Registrations of admins -/

/-- A new account of an email has been stored with its key, and nothing else. -/
structure Enrolled (email key : String) (account : Account) (c c' : Contents) : Prop where
  fresh : (admins.load email).answer c = .ok none
  carries : account.key = some key
  email_eq : account.email = email
  minted : key ≠ ""
  contents : c' = (c.write admins.name (Bytes.ofText email) (Record.encode account)).write
    Admins.keySpace (Bytes.ofText key) (Bytes.ofText email)

theorem Enrolled.differ (h : Enrolled email key account c c') :
    Differ (fun s k => s = admins.name ∧ k = Bytes.ofText email ∨
      s = Admins.keySpace ∧ k = Bytes.ofText key) c c' := by
  rw [h.contents]
  exact (Differ.write (.inl ⟨rfl, rfl⟩) _).trans (.write (.inr ⟨rfl, rfl⟩) _)

theorem enrolled_create (hc : Sound c) (now : Instant) (password : String)
    (hfresh : (admins.load email).answer c = .ok none) :
    ∃ c', (Admins.create now email password).on c = (.ok (Admins.newKey now password), c') ∧
      Enrolled email (Admins.newKey now password) (Admins.newAccount now email password) c c' := by
  refine ⟨_, ?_, hfresh, rfl, rfl, Admins.newKey_ne_empty _ _, rfl⟩
  rw [Admins.on_create (hc.has Admins.keySpace (by decide)), hfresh]

/-- A registration of an admin fails and changes nothing, or stores an account with its key. -/
theorem create_cases (hc : Sound c) (now : Instant) (email password : String) :
    (∃ e, (Admins.create now email password).on c = (.error e, c)) ∨
      ∃ c', (Admins.create now email password).on c = (.ok (Admins.newKey now password), c') ∧
        Enrolled email (Admins.newKey now password) (Admins.newAccount now email password)
          c c' := by
  obtain ⟨found, hload⟩ := hc.load_account admins email
  cases found with
  | none => exact .inr (enrolled_create hc now password hload)
  | some account =>
    rw [Admins.on_create (hc.has Admins.keySpace (by decide)), hload]
    exact .inl ⟨_, rfl⟩

theorem bootstrapAdmin_of_fresh (hc : Sound c) (moment : Moment) (password : String)
    (hfresh : (admins.load email).answer c = .ok none) :
    ∃ c', (bootstrapAdmin moment email password).on c
        = (.ok (some (Admins.newKey moment.now password)), c') ∧
      Enrolled email (Admins.newKey moment.now password)
        (Admins.newAccount moment.now email password) c c' := by
  have hread := Admins.readOnly_ofEmail email
  obtain ⟨c', hcreate, henrolled⟩ := enrolled_create hc moment.now password hfresh
  refine ⟨c', ?_, henrolled⟩
  rw [bootstrapAdmin, on_andThen hread.steady, hread.on_eq, Admins.answer_ofEmail, hfresh]
  show (some <$> Admins.create moment.now email password).on c = _
  rw [on_map, hcreate]
  rfl

/-- The first admin is registered, unless there is an account of the email. -/
theorem bootstrapAdmin_cases (hc : Sound c) (moment : Moment) (email password : String) :
    (bootstrapAdmin moment email password).on c = (.ok none, c) ∨
      ∃ c', (bootstrapAdmin moment email password).on c
          = (.ok (some (Admins.newKey moment.now password)), c') ∧
        Enrolled email (Admins.newKey moment.now password)
          (Admins.newAccount moment.now email password) c c' := by
  have hread := Admins.readOnly_ofEmail email
  obtain ⟨found, hload⟩ := hc.load_account admins email
  cases found with
  | none => exact .inr (bootstrapAdmin_of_fresh hc moment password hload)
  | some account =>
    left
    rw [bootstrapAdmin, on_andThen hread.steady, hread.on_eq, Admins.answer_ofEmail, hload]
    rfl

theorem createAdmin_cases (hc : Sound c) (moment : Moment) (key email password : String) :
    (∃ e, (createAdmin moment key email password).on c = (.error e, c)) ∨
      ∃ c', (createAdmin moment key email password).on c
          = (.ok (Admins.newKey moment.now password), c') ∧
        Enrolled email (Admins.newKey moment.now password)
          (Admins.newAccount moment.now email password) c c' := by
  rcases forAdmin_cases (Admins.create moment.now email password) c email key
    with herror | ⟨hemail, hadmin⟩
  · exact .inl herror
  · rw [createAdmin, on_forAdmin _ hemail hadmin]
    exact create_cases hc moment.now email password

/-! ### What an operation does to the entries of admins -/

/-- An operation that issues a key stores an account that carries it. -/
theorem Issues.enrolled (h : Issues past step email key) : ∃ account,
    Enrolled email key account (after past).contents (after (step :: past)).contents := by
  have hc := sound_after past
  cases h with
  | @bootstrap moment _ password _ hanswer =>
    rcases bootstrapAdmin_cases hc moment email password with hon | ⟨c', hon, henrolled⟩
    all_goals
      obtain ⟨hreply, hcontents⟩ := step_of_on (.bootstrapAdmin email password) moment rfl hon
      rw [hreply] at hanswer
      rw [hcontents]
    · cases Answer.newKey.inj (Except.ok.inj hanswer)
    · have hkey := Option.some.inj (Answer.newKey.inj (Except.ok.inj hanswer))
      exact ⟨_, hkey ▸ henrolled⟩
  | @create moment caller _ password _ hanswer =>
    rcases createAdmin_cases hc moment caller email password with ⟨e, hon⟩ | ⟨c', hon, henrolled⟩
    all_goals
      obtain ⟨hreply, hcontents⟩ := step_of_on (.createAdmin caller email password) moment rfl hon
      rw [hreply] at hanswer
      rw [hcontents]
    · contradiction
    · have hkey := Answer.key.inj (Except.ok.inj hanswer)
      exact ⟨_, hkey ▸ henrolled⟩

/-- An operation issues a key, deletes an admin, or leaves the entries of admins as they are. -/
theorem admins_step (past : List (Operation × Moment)) (step : Operation × Moment) :
    (∃ email key, Issues past step email key) ∨ (∃ key, step.1 = .deleteAdmin key) ∨
      Differ (fun s _ => s ∉ Admins.namespaces) (after past).contents
        (after (step :: past)).contents := by
  have hc := sound_after past
  have hdiffer := differ_spaces step.1 step.2 (after past)
  obtain ⟨op, moment⟩ := step
  cases op with
  | bootstrapAdmin email password =>
    rcases bootstrapAdmin_cases hc moment email password with hon | ⟨c', hon, -⟩
    all_goals
      obtain ⟨hreply, hcontents⟩ := step_of_on (.bootstrapAdmin email password) moment rfl hon
    · rw [hcontents]
      exact .inr (.inr (.refl _))
    · exact .inl ⟨email, _, .bootstrap hreply⟩
  | createAdmin key email password =>
    rcases createAdmin_cases hc moment key email password with ⟨e, hon⟩ | ⟨c', hon, -⟩
    all_goals
      obtain ⟨hreply, hcontents⟩ := step_of_on (.createAdmin key email password) moment rfl hon
    · rw [hcontents]
      exact .inr (.inr (.refl _))
    · exact .inl ⟨email, _, .create hreply⟩
  | deleteAdmin key => exact .inr (.inl ⟨key, rfl⟩)
  | _ =>
    refine .inr (.inr (hdiffer.mono fun s _ => ?_))
    revert s
    simp only [Operation.spaces]
    decide

/-! ### Keys that lead to an account -/

/-- The index leads from a key to an email, and the account of the email carries the key. -/
structure Leads (c : Contents) (key email : String) (account : Account) : Prop where
  entry : c.value? Admins.keySpace (Bytes.ofText key) = some (Bytes.ofText email)
  load : (admins.load email).answer c = .ok (some account)
  carries : account.key = some key

namespace Leads

theorem authenticate (h : Leads c key email account) (hkey : key ≠ "") :
    (Admins.authenticate key).answer c = .ok account :=
  Admins.answer_authenticate_eq_ok_iff.2 ⟨hkey, email, h.entry, h.carries, h.load⟩

theorem reply_checkAdmin (h : Leads (after past).contents key email account) (hkey : key ≠ "")
    (moment : Moment) : reply past (.checkAdmin key, moment) = .ok (.account account) := by
  rw [reply_eq, Operation.run, answer_map, checkAdmin, h.authenticate hkey]
  rfl

theorem of_differ {P : String → Bytes → Prop} (h : Leads c key email account)
    (hdiffer : Differ P c c') (hkey : ¬ P Admins.keySpace (Bytes.ofText key))
    (hadmin : ¬ P admins.name (Bytes.ofText email)) : Leads c' key email account where
  entry := (hdiffer.value?_eq hkey).trans h.entry
  load := (Backend.answer_getRecord_of_differ hdiffer hadmin).trans h.load
  carries := h.carries

theorem of_enrolled (hc : Sound c) (h : Enrolled email key account c c') :
    Leads c' key email account := by
  have hadmin : c.Has admins.name := hc.has _ (by decide)
  have hkey : c.Has Admins.keySpace := hc.has _ (by decide)
  rw [h.contents]
  refine ⟨value?_write_self ((has_write _ _).2 hkey) _, ?_, h.carries⟩
  exact (Backend.answer_getRecord_write_of_space_ne (by decide)).trans
    (Backend.answer_getRecord_write hadmin account)

/-- Another admin is registered. -/
theorem of_enrolled_other {email' key' : String} {account' : Account}
    (h : Leads c key email account) (henrolled : Enrolled email' key' account' c c')
    (hkey : key' = key → email' = email) : Leads c' key email account := by
  have hemail : email' ≠ email := by
    rintro rfl
    have hload := h.load
    rw [henrolled.fresh] at hload
    cases hload
  refine h.of_differ henrolled.differ ?_ ?_
  · rintro (⟨hs, -⟩ | ⟨-, hk⟩)
    · exact absurd hs (by decide)
    · exact hemail (hkey (Bytes.ofText_inj.1 hk).symm)
  · rintro (⟨-, hk⟩ | ⟨hs, -⟩)
    · exact hemail (Bytes.ofText_inj.1 hk).symm
    · exact absurd hs (by decide)

/-- Another key is used to delete its admin, who carries that key and no other. -/
theorem of_delete_other {b : Backend} {key' : String} (hc : Sound b.contents)
    (h : Leads b.contents key email account) (hkey : key' ≠ key) :
    Leads ((Admins.delete key').run b).2.contents key email account := by
  have hdiffer : Differ (fun s k => s = Admins.keySpace ∧ k = Bytes.ofText key' ∨
      s = admins.name ∧ ∃ account', k = Bytes.ofText account'.email ∧
        (Admins.authenticate key').answer b.contents = .ok account')
      b.contents ((Admins.delete key').run b).2.contents :=
    Admins.differ_delete (fun account' hauth => .inr ⟨rfl, account', rfl, hauth⟩)
      fun _ _ => .inl ⟨rfl, rfl⟩
  refine h.of_differ hdiffer ?_ ?_
  · rintro (⟨-, hk⟩ | ⟨hs, -⟩)
    · exact hkey (Bytes.ofText_inj.1 hk).symm
    · exact absurd hs (by decide)
  · rintro (⟨hs, -⟩ | ⟨-, account', hk, hauth⟩)
    · exact absurd hs (by decide)
    · obtain ⟨-, email', -, hcarries, hload⟩ := Admins.answer_authenticate_eq_ok_iff.1 hauth
      rw [hc.email_of_load hload, Bytes.ofText_inj] at hk
      rw [← hk, h.load] at hload
      rw [← Option.some.inj (Except.ok.inj hload), h.carries] at hcarries
      exact hkey (Option.some.inj hcarries).symm

/-- Only the deletion of its admin and another issue of it keep a key from leading to an account. -/
theorem after_cons (h : Leads (after past).contents key email account)
    (hdelete : step.1 ≠ .deleteAdmin key)
    (hissues : ∀ other, Issues past step other key → other = email) :
    Leads (after (step :: past)).contents key email account := by
  rcases admins_step past step with ⟨email', key', hissued⟩ | ⟨key', hop⟩ | hdiffer
  · obtain ⟨account', henrolled⟩ := hissued.enrolled
    exact h.of_enrolled_other henrolled fun hkey => hissues email' (hkey ▸ hissued)
  · have hkey : key' ≠ key := fun hkey => hdelete (hkey ▸ hop)
    rw [after, hop, Operation.run, run_map]
    exact h.of_delete_other (sound_after past) hkey
  · exact h.of_differ hdiffer (by decide) (by decide)

/-- A key leads to an account as long as it is not issued again or used to delete its admin. -/
theorem after_append (h : Leads (after past).contents key email account)
    (hkept : ∀ newer step older, later = newer ++ step :: older → step.1 ≠ .deleteAdmin key ∧
      ∀ other, Issues (older ++ past) step other key → other = email) :
    Leads (after (later ++ past)).contents key email account := by
  refine kept_after (P := fun c => Leads c key email account) later h ?_
  intro newer step older hlater hleads
  obtain ⟨hdelete, hissues⟩ := hkept newer step older hlater
  exact hleads.after_cons hdelete hissues

end Leads

/-- A key goes on authenticating an admin when the operation writes no entries of admins. -/
theorem AdminKey.after_cons {op : Operation} {moment : Moment}
    (h : AdminKey (after past).contents key) (hop : ∀ s ∈ Admins.namespaces, s ∉ op.spaces) :
    AdminKey (after ((op, moment) :: past)).contents key := by
  obtain ⟨account, hauth⟩ := h
  obtain ⟨hkey, email, hentry, hcarries, hload⟩ := Admins.answer_authenticate_eq_ok_iff.1 hauth
  have hleads : Leads (after past).contents key email account := ⟨hentry, hload, hcarries⟩
  have hleads' : Leads (after ((op, moment) :: past)).contents key email account :=
    hleads.of_differ (differ_spaces op moment (after past)) (hop _ (by decide)) (hop _ (by decide))
  exact ⟨account, hleads'.authenticate hkey⟩

/-! ### Keys that have been issued -/

/-- An issued key authenticates the account of its email in every later state until it is used to
delete its admin, or is issued for another email. -/
theorem checkAdmin_of_issues (hissues : Issues past step email key)
    (hkept : ∀ newer s older, later = newer ++ s :: older → s.1 ≠ .deleteAdmin key ∧
      ∀ other, Issues (older ++ step :: past) s other key → other = email) (moment : Moment) :
    ∃ account, reply (later ++ step :: past) (.checkAdmin key, moment) = .ok (.account account) ∧
      (admins.load email).answer (after (later ++ step :: past)).contents = .ok (some account) ∧
      account.email = email := by
  obtain ⟨account, henrolled⟩ := hissues.enrolled
  have hleads := (Leads.of_enrolled (sound_after past) henrolled).after_append hkept
  exact ⟨account, hleads.reply_checkAdmin henrolled.minted moment, hleads.load, henrolled.email_eq⟩

/-- The first admin of a new service. -/
def ann : Operation × Moment := (.bootstrapAdmin "ann" "pass", .first)

def annKey : String := Admins.newKey .first "pass"

theorem load_initial (identities : IdentitySpace) (email : String) :
    (identities.load email).answer (after []).contents = .ok none := by
  rw [after, run_setup]
  refine Backend.answer_getRecord_eq_none_iff.2 ⟨(has_initial _).2 ?_, .inl (value?_initial _ _)⟩
  cases identities <;> decide

theorem issues_ann : Issues [] ann "ann" annKey := by
  obtain ⟨c', hon, -⟩ := bootstrapAdmin_of_fresh (sound_after []) .first "pass"
    (load_initial admins "ann")
  exact .bootstrap (step_of_on _ _ rfl hon).1

theorem adminKey_ann : AdminKey (after [ann]).contents annKey := by
  obtain ⟨account, henrolled⟩ := issues_ann.enrolled
  exact ⟨account, (Leads.of_enrolled (sound_after []) henrolled).authenticate henrolled.minted⟩

/-- The first admin has been registered, and nobody else. -/
theorem load_ann (identities : IdentitySpace) (hemail : email ≠ "ann") :
    (identities.load email).answer (after [ann]).contents = .ok none := by
  obtain ⟨account, henrolled⟩ := issues_ann.enrolled
  refine (Backend.answer_getRecord_of_differ henrolled.differ ?_).trans
    (load_initial identities email)
  rintro (⟨-, hk⟩ | ⟨hs, -⟩)
  · exact hemail (Bytes.ofText_inj.1 hk)
  · cases identities <;> exact absurd hs (by decide)

theorem checkAdmin_ann : ∃ account, reply
    [(.createUser annKey "eve" "word", ann.2), (.deleteAdmin "", ann.2), ann]
      (.checkAdmin annKey, ann.2) = .ok (.account account) ∧ account.email = "ann" := by
  have hkept : ∀ newer s older,
      [(.createUser annKey "eve" "word", ann.2), (.deleteAdmin "", ann.2)] = newer ++ s :: older →
        s.1 ≠ .deleteAdmin annKey ∧
        ∀ other, Issues (older ++ [ann]) s other annKey → other = "ann" := by
    intro newer s older hlater
    have hs : s ∈ [(.createUser annKey "eve" "word", ann.2), (.deleteAdmin "", ann.2)] := by
      rw [hlater]
      exact List.mem_append_right _ List.mem_cons_self
    rcases List.mem_cons.1 hs with rfl | hs
    · exact ⟨nofun, nofun⟩
    · obtain rfl := List.mem_singleton.1 hs
      refine ⟨fun hop => ?_, nofun⟩
      exact Admins.newKey_ne_empty _ _ (Operation.deleteAdmin.inj hop).symm
  obtain ⟨account, hreply, -, hemail⟩ := checkAdmin_of_issues issues_ann hkept ann.2
  exact ⟨account, hreply, hemail⟩

/-- An admin registered with the password of the first one at the same instant. -/
def bob : Operation × Moment := (.createAdmin annKey "bob" "pass", ann.2)

theorem issues_bob : Issues [ann] bob "bob" annKey := by
  have hfresh := load_ann admins (show "bob" ≠ "ann" by decide)
  obtain ⟨c', hcreate, -⟩ := enrolled_create (sound_after [ann]) ann.2.now "pass" hfresh
  have hon : (createAdmin ann.2 annKey "bob" "pass").on (after [ann]).contents = _ :=
    (on_forAdmin _ (by decide) adminKey_ann).trans hcreate
  exact .create (step_of_on _ _ rfl hon).1

/-- The key of the first admin authenticates another one after a registration with the same password
at the same instant, although nobody has used it to delete an admin. -/
theorem checkAdmin_twins : Issues [] ann "ann" annKey ∧ (∀ s ∈ [bob], s.1 ≠ .deleteAdmin annKey) ∧
    ∃ account, reply ([bob] ++ [ann]) (.checkAdmin annKey, ann.2) = .ok (.account account) ∧
      account.email ≠ "ann" := by
  refine ⟨issues_ann, fun s hs hop => ?_, ?_⟩
  · rw [List.mem_singleton.1 hs] at hop
    cases hop
  · obtain ⟨account, henrolled⟩ := issues_bob.enrolled
    have hleads := Leads.of_enrolled (sound_after [ann]) henrolled
    refine ⟨account, hleads.reply_checkAdmin henrolled.minted ann.2, ?_⟩
    rw [henrolled.email_eq]
    decide

end AuthVault.Service
