import AuthVault.Proofs.Backend.Records
import AuthVault.Proofs.Json.Number
import AuthVault.Snapshot.Storage

/-!
# What is stored is read back

`ReadsBack` is what the store of records promises for a value: its stored form stands for it and
counts as a record, and under whatever key it has been stored it is found there again. Stored forms
that are decoded to their values are enough for that (`readsBack_of_decode_encode`), and those of
all accounts, sessions, objects and settings are (`readsBack_records`).
-/

namespace AuthVault

open Json AuthVault.Action Contents

/-! ### Settings -/

theorem readOptional_null (rest : Bytes) :
    readOptional readText ([110, 117, 108, 108] ++ rest) = .ok (none, rest) := by
  have hpeek : peek ([110, 117, 108, 108] ++ rest) = .ok (some 110, [110, 117, 108, 108] ++ rest) :=
    peek_cons (by decide) _
  rw [readOptional, bind_ok hpeek]
  rfl

/-- Settings are read back whose interval is a number of 64 bits. -/
theorem decode_settings (s : PersistenceSettings) (h : s.intervalMillis < UInt64.size) :
    Record.decode (Record.encode s) = .ok s := by
  show decode PersistenceSettings.layout.read (PersistenceSettings.encode s) = .ok s
  obtain ⟨path, interval⟩ := s
  refine Layout.decode_renderObject (.cons ⟨some path, none⟩ (fun c rest hc => ?_)
    (.cons ⟨some path, some interval⟩ (fun c rest hc => ?_) (.nil _))) rfl
  · cases path with
    | none => exact Layout.member_of_find? rfl rfl (bind_ok (readOptional_null _))
    | some path => exact Layout.member_of_find? rfl rfl (bind_ok (readOptional_renderText path _))
  · exact Layout.member_of_find? rfl rfl (bind_ok (readNatural_decimal hc (Nat.le_refl _) h))

/-! ### Storing and finding -/

section Store

variable {α : Type} [Record α] {x : α}

/-- Stores a record and looks for it. -/
def storeAndFind (space key : String) (x : α) : Action (Option α) := do
  Backend.putRecord space key x
  Backend.getRecord space key

/-- A value is found again once it has been stored. -/
structure ReadsBack (x : α) : Prop where
  decode_encode : Record.decode (Record.encode x) = .ok x
  encode_ne_nil : (Record.encode x : Bytes) ≠ []
  /-- Storing and finding succeed where the namespace exists and no fault is armed. -/
  on_storeAndFind : ∀ {c : Contents} {space : String}, c.Has space → ∀ key,
    (storeAndFind space key x).on c
      = (.ok (some x), c.write space (Bytes.ofText key) (Record.encode x))
  /-- If both succeed at all, whichever faults are armed, the value is found. -/
  eq_of_ok : ∀ {b : Backend} {space key : String} {found : Option α},
    ((storeAndFind space key x).run b).1 = .ok found → found = some x

theorem readsBack_of_decode_encode (hdecode : Record.decode (Record.encode x) = .ok x)
    (hne : (Record.encode x : Bytes) ≠ []) : ReadsBack x := by
  refine ⟨hdecode, hne, fun {c space} hhas key => ?_, fun {b space key found} hok => ?_⟩
  · have hput := Backend.on_put hhas (Bytes.ofText key) (Record.encode x)
    rw [storeAndFind, Backend.putRecord, on_bind_ok (Backend.atomic_put _ _ _).steady hput,
      (Backend.readOnly_getRecord space key).on_eq,
      Backend.answer_getRecord_of_write hhas hdecode hne]
  · rcases run_bind_cases (Backend.putRecord space key x)
      (fun _ => (Backend.getRecord space key : Action (Option α))) b
      with ⟨e, -, hrun⟩ | ⟨_, hstored, hrun⟩
    all_goals rw [storeAndFind, hrun] at hok
    · contradiction
    · have hput := (Backend.atomic_put _ _ _).on_of_ok hstored
      have hget := (Backend.readOnly_getRecord space key).answer_of_ok hok
      by_cases hhas : b.contents.Has space
      · rw [Backend.on_put hhas] at hput
        have hwritten : ((Backend.putRecord space key x).run b).2.contents
            = b.contents.write space (Bytes.ofText key) (Record.encode x) :=
          (congrArg Prod.snd hput).symm
        rw [hwritten, Backend.answer_getRecord_of_write hhas hdecode hne] at hget
        exact (Except.ok.inj hget).symm
      · rw [Backend.on_put_of_not_has hhas] at hput
        cases congrArg Prod.fst hput

end Store

/-! ### All stored records -/

theorem readsBack {α : Type} [Record α] [LawfulRecord α] (x : α) : ReadsBack x :=
  readsBack_of_decode_encode (LawfulRecord.decode_encode x) (LawfulRecord.encode_ne_nil x)

/-- Whatever is in an account, a session or an object, and in settings whose interval is a number of
64 bits, it is read back. -/
theorem readsBack_records : (∀ account : Account, ReadsBack account) ∧
    (∀ session : Session, ReadsBack session) ∧ (∀ object : StoredObject, ReadsBack object) ∧
    ∀ settings : PersistenceSettings, settings.intervalMillis < UInt64.size → ReadsBack settings :=
  ⟨readsBack, readsBack, readsBack, fun settings h =>
    readsBack_of_decode_encode (decode_settings settings h) (renderObject_ne_nil _)⟩

theorem readsBack_records_settings :
    ReadsBack (⟨some "vault.bin", 5000⟩ : PersistenceSettings) :=
  readsBack_records.2.2.2 ⟨some "vault.bin", 5000⟩ (by decide)

end AuthVault
