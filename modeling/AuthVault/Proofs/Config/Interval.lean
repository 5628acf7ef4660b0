import AuthVault.Config
import AuthVault.Proofs.Time.Duration
import Mathlib.Data.Nat.GCD.Basic

/-!
# The interval of snapshots

The interval of a configuration is never zero and counts whole milliseconds: it is the default, or it
has been read, and what is read counts whole seconds, or milliseconds that fit 64 bits
(`Duration.Whole`). The settings of the backend have exactly as many milliseconds as long as these fit
64 bits; beyond that they are cut, down to zero where the seconds are a multiple of `2 ^ 61`
(`intervalMillis_exact`, `intervalMillis_wrapped`).
-/

namespace AuthVault

namespace Duration

/-- A number of whole seconds, or of milliseconds that fits 64 bits. -/
def Whole (d : Duration) : Prop :=
  d.nanos = 0 ∨ d.nanos % 1_000_000 = 0 ∧ d.toMillis < 2 ^ 64

theorem whole_of_ofUnits? {n : Nat} {m : Measure} {d : Duration} (h : ofUnits? n m = some d) :
    d.Whole := by
  have hsecs : ∀ k, ofSecs? k = some d → d.nanos = 0 := by
    intro k hk
    unfold ofSecs? at hk
    split at hk
    · rw [← Option.some.inj hk, seconds]
    · contradiction
  cases m with
  | millis =>
    rw [ofUnits?, ofMillis?] at h
    split at h
    · next hn =>
      rw [← Option.some.inj h]
      right
      simp only [toMillis]
      omega
    · contradiction
  | secs => exact .inl (hsecs _ h)
  | minutes => exact .inl (hsecs _ h)
  | hours => exact .inl (hsecs _ h)

theorem whole_of_ofText? {s : String} {d : Duration} (h : ofText? s = some d) : d.Whole := by
  obtain ⟨n, m, hspells⟩ := exists_spells h
  rw [hspells.ofText?_eq] at h
  split at h
  · exact whole_of_ofUnits? h
  · contradiction

namespace Whole

variable {d : Duration}

theorem toNanos_eq (h : d.Whole) : d.toNanos = d.toMillis * 1_000_000 := by
  unfold Whole at h
  simp only [toNanos, toMillis]
  omega

theorem toMillis_pos (h : d.Whole) (hzero : d.isZero = false) : 0 < d.toMillis := by
  have hpos := toNanos_pos_iff.2 hzero
  rw [h.toNanos_eq] at hpos
  omega

/-- A second has a thousand milliseconds, which is eight times an odd number. -/
theorem toMillis_mod_eq_zero_iff (h : d.Whole) (hpos : 0 < d.toMillis) :
    d.toMillis % 2 ^ 64 = 0 ↔ d.nanos = 0 ∧ 2 ^ 61 ∣ d.secs := by
  by_cases hnanos : d.nanos = 0
  · have hmillis : d.toMillis = 8 * (125 * d.secs) := by
      rw [toMillis, hnanos]
      omega
    rw [← Nat.dvd_iff_mod_eq_zero, hmillis, show 2 ^ 64 = 8 * 2 ^ 61 from rfl,
      Nat.mul_dvd_mul_iff_left (by decide), Nat.Coprime.dvd_mul_left (by decide)]
    exact (and_iff_right hnanos).symm
  · have hlt : d.toMillis < 2 ^ 64 := (h.resolve_left hnanos).2
    rw [Nat.mod_eq_of_lt hlt]
    exact iff_of_false (Nat.ne_of_gt hpos) fun hzero => hnanos hzero.1

end Whole

end Duration

namespace Config

/-- The interval is the default, as where nothing is chosen, or it has been read and is not zero. -/
theorem snapshotInterval_cases (env : String → Option String) (args : List String) :
    (ofSources env args).snapshotInterval = (resolve fun _ => none).snapshotInterval ∨
      ∃ s, Duration.ofText? s = some (ofSources env args).snapshotInterval ∧
        (ofSources env args).snapshotInterval.isZero = false := by
  generalize hread : (((pick env args .snapshotInterval).bind Duration.ofText?).filter
    fun d => !d.isZero) = read
  have hinterval : (ofSources env args).snapshotInterval
      = read.getD (resolve fun _ => none).snapshotInterval := by
    rw [← hread]
    rfl
  rw [hinterval]
  cases read with
  | none => exact .inl rfl
  | some d =>
    obtain ⟨hsome, hzero⟩ := Option.filter_eq_some_iff.1 hread
    obtain ⟨s, -, hs⟩ := Option.bind_eq_some_iff.1 hsome
    exact .inr ⟨s, hs, by simpa using hzero⟩

theorem whole_snapshotInterval (env : String → Option String) (args : List String) :
    (ofSources env args).snapshotInterval.Whole := by
  rcases snapshotInterval_cases env args with hdefault | ⟨s, hs, -⟩
  · rw [hdefault]
    exact .inl rfl
  · exact Duration.whole_of_ofText? hs

theorem isZero_snapshotInterval (env : String → Option String) (args : List String) :
    (ofSources env args).snapshotInterval.isZero = false := by
  rcases snapshotInterval_cases env args with hdefault | ⟨s, -, hzero⟩
  · rw [hdefault]
    rfl
  · exact hzero

/-- The interval is a positive number of whole milliseconds, and so many are in the settings exactly if
they fit 64 bits. None are exactly if the seconds are a multiple of `2 ^ 61`. -/
theorem intervalMillis_exact (env : String → Option String) (args : List String) :
    0 < (ofSources env args).snapshotInterval.toMillis ∧
      (ofSources env args).snapshotInterval.toNanos
        = (ofSources env args).snapshotInterval.toMillis * 1_000_000 ∧
      ((ofSources env args).persistence.intervalMillis
          = (ofSources env args).snapshotInterval.toMillis ↔
        (ofSources env args).snapshotInterval.toMillis < 2 ^ 64) ∧
      ((ofSources env args).persistence.intervalMillis = 0 ↔
        (ofSources env args).snapshotInterval.nanos = 0 ∧
          2 ^ 61 ∣ (ofSources env args).snapshotInterval.secs) := by
  have hwhole := whole_snapshotInterval env args
  have hpos := hwhole.toMillis_pos (isZero_snapshotInterval env args)
  refine ⟨hpos, hwhole.toNanos_eq, ?_, hwhole.toMillis_mod_eq_zero_iff hpos⟩
  exact Nat.mod_eq_iff_lt (by decide)

/-- An interval of `2 ^ 61` seconds comes out as no time at all. -/
theorem intervalMillis_wrapped :
    let c := ofSources (fun _ => none) ["keygate", "--snapshot-interval", "2305843009213693952"]
    c.snapshotInterval.toMillis = 2305843009213693952000 ∧ c.persistence.intervalMillis = 0 := by
  decide +kernel

end Config

end AuthVault
