import AuthVault.Proofs.Service.Listing
import AuthVault.Proofs.Snapshot.Storage
import Mathlib.Control.Monad.Basic

/-!
# Restarts

All that a service knows is in the contents of its backend. `transcript b steps` is what operations
in a backend answer, one after another, and what contents each of them leaves. Opening a backend on
what was saved restores the contents, and setting up a service where its namespaces exist already
changes nothing (`run_setup_of_has`), which they do in every backend that a service was on
(`exists_runAll`). So operations after a restart answer and leave what they would have without it
(`transcript_of_restart`). The map that is loaded may list its keys in another order, which makes no
difference as long as every object can be read (`transcript_congr`).
-/

namespace AuthVault.Service

open AuthVault.Action Contents
open IdentitySpace (users admins)
open Objects (Readable)

/-- What operations answer, one after another, and the contents that each of them leaves. -/
def transcript (b : Backend) : List (Operation × Moment) → List (Except AuthError Answer × Contents)
  | [] => []
  | step :: later =>
    let r := (step.1.run step.2).run b
    (r.1, r.2.contents) :: transcript r.2 later

variable {c : Contents}

/-! ### Steps without faults -/

theorem transcript_cons (step : Operation × Moment) (later : List (Operation × Moment))
    (c : Contents) :
    transcript ⟨c, []⟩ (step :: later)
      = (step.1.run step.2).on c :: transcript ⟨((step.1.run step.2).on c).2, []⟩ later := by
  rw [transcript, run_eq_on (steady_run step.1 step.2)]

/-- What each operation keeps is kept by operations one after another. -/
theorem exists_runAll {P : Contents → Prop}
    (hstep : ∀ (step : Operation × Moment) c, P c → P ((step.1.run step.2).on c).2) (h : P c)
    (past : List (Operation × Moment)) : ∃ c', runAll ⟨c, []⟩ past = ⟨c', []⟩ ∧ P c' := by
  induction past generalizing c with
  | nil => exact ⟨c, rfl, h⟩
  | cons step past ih =>
    rw [runAll, List.foldl_cons, run_eq_on (steady_run step.1 step.2)]
    exact ih (hstep step c h)

theorem has_run (step : Operation × Moment) (c : Contents) (s : String) :
    ((step.1.run step.2).on c).2.Has s ↔ c.Has s :=
  (differ_spaces step.1 step.2 ⟨c, []⟩).has_iff s

theorem readable_run (h : Readable c) (step : Operation × Moment) :
    Readable ((step.1.run step.2).on c).2 :=
  readable_of_on (stores_run step.1 step.2) h rfl

/-- Where every object can be read, operations answer and leave the same in whatever order keys are
listed. -/
theorem transcript_congr {later later' : List (Operation × Moment)} (h : Readable c)
    (heq : later'.map asked = later.map asked) :
    transcript ⟨c, []⟩ later' = transcript ⟨c, []⟩ later := by
  induction later generalizing later' c with
  | nil => rw [List.map_eq_nil_iff.1 heq]
  | cons step later ih =>
    obtain ⟨step', rest, rfl, hasked, hrest⟩ := List.map_eq_cons_iff.1 heq
    rw [transcript_cons, transcript_cons, on_run_congr h hasked, ih (readable_run h step) hrest]

/-! ### Setting up a service -/

theorem run_setup_of_has (h : ∀ s ∈ namespaces, c.Has s) :
    setup.run ⟨c, []⟩ = (.ok (), ⟨c, []⟩) := by
  obtain ⟨c', hsetup, hhas, hvalue⟩ := Backend.on_createAll namespaces c
  have heq : c' = c := ext_value? (fun s => (hhas s).trans ⟨fun hs => hs.elim id (h s), .inl⟩) hvalue
  rw [run_eq_on steady_setup, setup, hsetup, heq]

theorem exists_run_setup (c : Contents) :
    ∃ c', setup.run ⟨c, []⟩ = (.ok (), ⟨c', []⟩) ∧ ∀ s ∈ namespaces, c'.Has s := by
  obtain ⟨c', hsetup, hhas, -⟩ := Backend.on_createAll namespaces c
  refine ⟨c', ?_, fun s hs => (hhas s).2 (.inr hs)⟩
  rw [run_eq_on steady_setup, setup, hsetup]

/-- A restart makes no difference. A service has been at work on a backend bound to a file, its
snapshot is saved, and the file is opened as a new backend. A service that is set up there, or anew on
the old backend, answers whatever operations follow as the old one would have, and leaves the same
contents after each. The map that was loaded may list its keys in another order, except where an
object that cannot be read was in the file at first. -/
theorem transcript_of_restart {path : Path} {files files' files'' : FileTree} {b reached : Backend}
    {past : List (Operation × Moment)} {listing : String → Listing (Bytes × Bytes)} {clock : Int}
    (hopen : Snapshot.openBackend (some path) files = .ok b)
    (hreached : runAll (setup.run b).2 past = reached) (hfits : Snapshot.Fits reached.contents)
    (hsave : Snapshot.save listing clock (some path) reached.contents files' = (.ok (), files'')) :
    ∃ b', Snapshot.openBackend (some path) files'' = .ok b' ∧
      (setup.run b').1 = .ok () ∧ (setup.run reached).1 = .ok () ∧
      ∀ later later' : List (Operation × Moment), later'.map asked = later.map asked →
        (Readable (setup.run b).2.contents ∨ later' = later) →
          transcript (setup.run b').2 later' = transcript reached later ∧
            transcript (setup.run reached).2 later' = transcript reached later := by
  obtain ⟨c, hsetup, hhas⟩ := exists_run_setup b.contents
  rw [← Snapshot.eq_of_openBackend hopen] at hsetup
  rw [hsetup] at hreached ⊢
  obtain ⟨c', hrun, hhas', hread⟩ := exists_runAll
    (P := fun c' => (∀ s ∈ namespaces, c'.Has s) ∧ (Readable c → Readable c'))
    (fun step c₁ ⟨hhas₁, hread₁⟩ => ⟨fun s hs => (has_run step c₁ s).2 (hhas₁ s hs),
      fun h => readable_run (hread₁ h) step⟩) ⟨hhas, id⟩ past
  obtain rfl : reached = ⟨c', []⟩ := hreached.symm.trans hrun
  refine ⟨⟨c', []⟩, Snapshot.openBackend_of_save hfits hsave, ?_⟩
  rw [run_setup_of_has hhas']
  refine ⟨rfl, rfl, fun later later' hasked horder => ?_⟩
  have hsame : transcript ⟨c', []⟩ later' = transcript ⟨c', []⟩ later := by
    rcases horder with hreadable | rfl
    · exact transcript_congr (hread hreadable) hasked
    · rfl
  exact ⟨hsame, hsame⟩

def boss : Account := ⟨"root", ⟨"salt", "hash"⟩, some "boss"⟩

def owner : Account := ⟨"ann", ⟨"salt", "hash"⟩, none⟩

def memo : StoredObject := ⟨"memo", [0], ⟨"ann"⟩⟩

/-- An admin, and a user with a session and a memo. -/
def stocked : Contents :=
  (((visited.write admins.name (Bytes.ofText "root") (Record.encode boss)).write
    Admins.keySpace (Bytes.ofText "boss") (Bytes.ofText "root")).write
      users.name (Bytes.ofText "ann") (Record.encode owner)).write
        Objects.space (Bytes.ofText "memo") (Record.encode memo)

theorem stocked_adds : Adds (Filed fun _ => True) initial stocked := by
  have hsession : Adds (Filed fun _ => True) initial visited :=
    .write (.session ⟨"ann", "key", .last⟩)
  have hadmin := hsession.trans (.write (.admin boss))
  have hkey := hadmin.trans (.write (.adminKey "boss" "root"))
  have huser := hkey.trans (.write (.user owner (by decide)))
  exact huser.trans (.write (.object memo trivial))

theorem run_setup_stocked : setup.run ⟨stocked, []⟩ = (.ok (), ⟨stocked, []⟩) :=
  run_setup_of_has fun s hs => (stocked_adds.has_iff s).2 ((has_initial s).2 hs)

/-- The user has put a note as well. After a restart, on maps that list everything in descending order,
the note is there, and an admin deletes the user with both objects. -/
theorem transcript_of_restart_descending :
    let path : Path := ⟨["vault.bin"]⟩
    let b : Backend := ⟨stocked, []⟩
    let files := (Snapshot.save (fun _ => .ascending) 0 (some path) stocked .empty).2
    let reached := runAll (setup.run b).2 [(.putObject "ann" "key" "note" [1], .first)]
    let saved := Snapshot.save (fun _ => .descending) 0 (some path) reached.contents files
    let steps (listing : Listing Bytes) : List (Operation × Moment) :=
      [.getObject "ann" "key" "note", .deleteUser (.adminKey "boss") "ann",
        .getObject "ann" "key" "memo"].map fun op => (op, { Moment.first with listing })
    Snapshot.openBackend (some path) files = .ok b ∧ saved.1 = .ok () ∧
      ∃ b', Snapshot.openBackend (some path) saved.2 = .ok b' ∧
        transcript (setup.run b').2 (steps .descending) = transcript reached (steps .ascending) ∧
        (transcript reached (steps .ascending)).map Prod.fst
          = [.ok (.object ⟨"note", [1], ⟨"ann"⟩⟩), .ok .done, .error (.notLoggedIn "ann")] := by
  intro path b files reached saved steps
  have hfirst : Snapshot.save (fun _ => .ascending) 0 (some path) stocked .empty = (.ok (), files) :=
    rfl
  have hopen : Snapshot.openBackend (some path) files = .ok b :=
    Snapshot.openBackend_of_save ⟨by decide +kernel, by decide +kernel⟩ hfirst
  have hfits : Snapshot.Fits reached.contents := ⟨by decide +kernel, by decide +kernel⟩
  have hsave : saved = (.ok (), saved.2) := rfl
  have hreadable : Readable (setup.run b).2.contents := by
    rw [run_setup_stocked]
    exact readable_of_adds sound_initial.readable stocked_adds
  obtain ⟨b', hopen', -, -, hsame⟩ := transcript_of_restart hopen rfl hfits hsave
  refine ⟨hopen, congrArg Prod.fst hsave, b', hopen', ?_, by decide +kernel⟩
  exact (hsame (steps .ascending) (steps .descending) rfl (.inl hreadable)).1

end AuthVault.Service
