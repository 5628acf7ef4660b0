import AuthVault.Time.Instant

/-!
# Expiry

Outside leap seconds, which no clock reading and no expiry is in, instants compare like their
nanoseconds (`notAfter_iff`). A window passes two cuts: its span is cut down to the longest one
(`toNanos_spanOf`), and a sum past the calendar to the last instant (`toNanos_getD_after?`). The
longest span reaches beyond the calendar from any instant (`last_lt_add_longestSpan`), so only the
second cut shows: the end of a window is the sum in nanoseconds or the last instant, whichever is
earlier (`toNanos_expiry`). What follows for the order of openings and ends is in `expiry_exact`. Leap
seconds or not, a window that is not zero is open when it opens (`notAfter_expiry`).
-/

namespace AuthVault.Instant

/-- An instant is not in a leap second. -/
def Plain (t : Instant) : Prop := t.nano < 1_000_000_000

theorem notAfter_iff {s t : Instant} (hs : s.Plain) (ht : t.Plain) :
    s.notAfter t = true ↔ s.toNanos ≤ t.toNanos := by
  unfold Plain at hs ht
  simp only [notAfter, Bool.or_eq_true, Bool.and_eq_true, decide_eq_true_eq, beq_iff_eq, toNanos]
  omega

theorem plain_first : first.Plain := show 0 < 1_000_000_000 by decide

theorem plain_last : last.Plain := show 999999999 < 1_000_000_000 by decide

theorem toNanos_le_last {t : Instant} (ht : t.Plain) : t.toNanos ≤ last.toNanos := by
  unfold Plain at ht
  have := t.upper
  simp only [toNanos, last]
  omega

/-- The last instant is the last nanosecond of the year 262142. -/
example : Date.ofDays (last.second / 86400) = ⟨262142, 12, 31⟩ ∧ last.second % 86400 = 86399 ∧
    last.nano = 999999999 := by decide

theorem ofParts?_eq_none {second : Int} {nano : Nat} (h : 8210266876799 < second) :
    ofParts? second nano = none := by
  unfold ofParts?
  rw [dif_neg]
  omega

theorem ofParts?_of_plain {second : Int} {nano : Nat} (hlower : -8334601228800 ≤ second)
    (hupper : second ≤ 8210266876799) (hnano : nano < 1_000_000_000) :
    ∃ t, ofParts? second nano = some t ∧ t.Plain ∧ t.toNanos = second * 1_000_000_000 + nano := by
  unfold ofParts?
  rw [dif_pos (by omega)]
  exact ⟨_, rfl, hnano, rfl⟩

/-- A sum is an instant, or lies beyond the last one. -/
theorem after?_cases {now : Instant} (hnow : now.Plain) (d : Duration) :
    (∃ t, now.after? d = some t ∧ t.Plain ∧ t.toNanos = now.toNanos + d.toNanos) ∨
      now.after? d = none ∧ last.toNanos < now.toNanos + d.toNanos := by
  have hlower := now.lower
  have hnanos := d.nanos_lt
  unfold Plain at hnow
  simp only [after?, toNanos, Duration.toNanos, last]
  by_cases hcarry : now.nano + d.nanos < 1_000_000_000
  · rw [if_pos hcarry]
    by_cases hupper : now.second + d.secs ≤ 8210266876799
    · obtain ⟨t, ht, hplain, hsum⟩ := ofParts?_of_plain (by omega) hupper hcarry
      refine .inl ⟨t, ht, hplain, ?_⟩
      rw [toNanos] at hsum
      rw [hsum]
      omega
    · exact .inr ⟨ofParts?_eq_none (by omega), by omega⟩
  · rw [if_neg hcarry]
    by_cases hupper : now.second + d.secs + 1 ≤ 8210266876799
    · obtain ⟨t, ht, hplain, hsum⟩ := ofParts?_of_plain (by omega) hupper
        (show now.nano + d.nanos - 1_000_000_000 < 1_000_000_000 by omega)
      refine .inl ⟨t, ht, hplain, ?_⟩
      rw [toNanos] at hsum
      rw [hsum]
      omega
    · exact .inr ⟨ofParts?_eq_none (by omega), by omega⟩

/-- A sum that is no instant is replaced by the last one. -/
theorem toNanos_getD_after? {now : Instant} (hnow : now.Plain) (d : Duration) :
    ((now.after? d).getD last).toNanos = min (now.toNanos + d.toNanos) last.toNanos := by
  rcases after?_cases hnow d with ⟨t, ht, hplain, hsum⟩ | ⟨hnone, hbeyond⟩
  · rw [ht, Option.getD_some, hsum]
    exact (Int.min_eq_left (hsum ▸ toNanos_le_last hplain)).symm
  · rw [hnone, Option.getD_none]
    exact (Int.min_eq_right (Int.le_of_lt hbeyond)).symm

theorem toNanos_spanOf (d : Duration) :
    (spanOf d).toNanos = min d.toNanos longestSpan.toNanos := by
  have hnanos := d.nanos_lt
  unfold spanOf
  split
  · next h =>
    simp only [Duration.toNanos, longestSpan] at h ⊢
    omega
  · next h =>
    simp only [Duration.toNanos, longestSpan] at h ⊢
    omega

/-- The longest span reaches beyond the calendar, even from its beginning. -/
theorem last_lt_add_longestSpan (now : Instant) :
    last.toNanos < now.toNanos + longestSpan.toNanos := by
  have := now.lower
  simp only [toNanos, Duration.toNanos, last, longestSpan]
  omega

theorem plain_expiry {now : Instant} (hnow : now.Plain) (d : Duration) : (now.expiry d).Plain := by
  unfold expiry
  rcases after?_cases hnow (spanOf d) with ⟨t, ht, hplain, -⟩ | ⟨hnone, -⟩
  · rw [ht]
    exact hplain
  · rw [hnone]
    exact plain_last

/-- A window ends a span later, and with the last instant at the latest. -/
theorem toNanos_expiry {now : Instant} (hnow : now.Plain) (d : Duration) :
    (now.expiry d).toNanos = min (now.toNanos + d.toNanos) last.toNanos := by
  -- the cut of the span never shows: it lies beyond the cut of the sum
  have hcut := last_lt_add_longestSpan now
  calc (now.expiry d).toNanos
      = min (now.toNanos + (spanOf d).toNanos) last.toNanos := toNanos_getD_after? hnow (spanOf d)
    _ = min (now.toNanos + d.toNanos) last.toNanos := by
      rw [toNanos_spanOf]
      omega

/-! ### Windows that open now -/

theorem parts_of_ofParts? {second : Int} {nano : Nat} {t : Instant}
    (h : ofParts? second nano = some t) : t.second = second ∧ t.nano = nano := by
  unfold ofParts? at h
  split at h
  · rw [← Option.some.inj h]
    exact ⟨rfl, rfl⟩
  · contradiction

/-- A sum with a span that is not zero is later. -/
theorem notAfter_of_after? {now t : Instant} {d : Duration} (hd : d.isZero = false)
    (h : now.after? d = some t) : t.notAfter now = false := by
  have hlength : 0 < d.secs * 1_000_000_000 + d.nanos := Duration.toNanos_pos_iff.2 hd
  have hnow := now.nano_lt
  have hparts : (t.second = now.second + d.secs ∧ t.nano = now.nano + d.nanos) ∨
      now.second < t.second := by
    simp only [after?] at h
    split at h
    · exact .inl (parts_of_ofParts? h)
    · have hsecond := (parts_of_ofParts? h).1
      right
      omega
  simp only [notAfter, Bool.or_eq_false_iff, Bool.and_eq_false_iff, decide_eq_false_iff_not,
    beq_eq_false_iff_ne]
  omega

theorem isZero_spanOf {d : Duration} (hd : d.isZero = false) : (spanOf d).isZero = false := by
  unfold spanOf
  split
  · rfl
  · exact hd

/-- A window that is not zero ends later than it opens, unless it opens at the end of the calendar.
-/
theorem notAfter_expiry {now : Instant} {window : Duration} (hwindow : window.isZero = false)
    (hnow : last.notAfter now = false) : (now.expiry window).notAfter now = false := by
  unfold expiry
  cases hend : now.after? (spanOf window) with
  | none => exact hnow
  | some t => exact notAfter_of_after? (isZero_spanOf hwindow) hend

/-! ### The end of a window -/

theorem notAfter_eq_false_iff {s t : Instant} (hs : s.Plain) (ht : t.Plain) :
    s.notAfter t = false ↔ t.toNanos < s.toNanos := by
  rw [← Bool.not_eq_true, notAfter_iff hs ht, Int.not_le]

theorem notAfter_self_expiry {now : Instant} (hnow : now.Plain) (window : Duration) :
    now.notAfter (now.expiry window) = true := by
  rw [notAfter_iff hnow (plain_expiry hnow window), toNanos_expiry hnow window]
  have := toNanos_le_last hnow
  omega

/-- A window stays open for a while exactly if it has a length and the calendar goes on. -/
theorem notAfter_expiry_iff {now : Instant} (hnow : now.Plain) {window : Duration} :
    (now.expiry window).notAfter now = false ↔
      window.isZero = false ∧ last.notAfter now = false := by
  refine ⟨fun hopen => ?_, fun ⟨hwindow, hlast⟩ => notAfter_expiry hwindow hlast⟩
  rw [notAfter_eq_false_iff (plain_expiry hnow window) hnow, toNanos_expiry hnow window] at hopen
  rw [← Duration.toNanos_pos_iff, notAfter_eq_false_iff plain_last hnow]
  omega

/-- A window that opens later and is longer does not end earlier. -/
theorem expiry_mono {now later : Instant} (hnow : now.Plain) (hlater : later.Plain)
    {window longer : Duration} (hopens : now.notAfter later = true)
    (hlength : window.toNanos ≤ longer.toNanos) :
    (now.expiry window).notAfter (later.expiry longer) = true := by
  rw [notAfter_iff hnow hlater] at hopens
  rw [notAfter_iff (plain_expiry hnow window) (plain_expiry hlater longer),
    toNanos_expiry hnow window, toNanos_expiry hlater longer]
  omega

/-- A window ends with its exact sum in nanoseconds, or with the calendar. So it never ends before it
opens, it ends later exactly if it is not zero and opens before the last instant, and it ends no
earlier for opening later or being longer. -/
theorem expiry_exact {now : Instant} (hnow : now.Plain) (window : Duration) :
    (now.expiry window).Plain ∧
      (now.expiry window).toNanos = min (now.toNanos + window.toNanos) last.toNanos ∧
      now.notAfter (now.expiry window) = true ∧
      ((now.expiry window).notAfter now = false ↔
        window.isZero = false ∧ last.notAfter now = false) ∧
      ∀ {later : Instant}, later.Plain → ∀ {longer : Duration},
        now.notAfter later = true → window.toNanos ≤ longer.toNanos →
          (now.expiry window).notAfter (later.expiry longer) = true := by
  refine ⟨plain_expiry hnow window, toNanos_expiry hnow window, notAfter_self_expiry hnow window,
    notAfter_expiry_iff hnow, fun hlater _ hopens hlength => ?_⟩
  exact expiry_mono hnow hlater hopens hlength

/-- A second and a nanosecond before the last instant. -/
def brink : Instant := { second := 8210266876798, nano := 999999998 }

/-- A window of that length ends exactly with the calendar, and so does the longest one that opens
with the last instant. -/
theorem expiry_exact_brink :
    let window : Duration := { secs := 1, nanos := 1 }
    let longest : Duration := { secs := 18446744073709551615, nanos := 999999999 }
    brink.Plain ∧ last.Plain ∧ brink.notAfter last = true ∧
      window.toNanos ≤ longest.toNanos ∧
      (brink.expiry window).toNanos = 8210266876799_999999999 ∧
      (brink.expiry window).notAfter brink = false ∧
      (brink.expiry window).notAfter (last.expiry longest) = true := by
  intro window longest
  have hbrink : brink.Plain := show 999999998 < 1_000_000_000 by decide
  have hopens : brink.notAfter last = true := by decide
  have hlength : window.toNanos ≤ longest.toNanos := by decide
  obtain ⟨-, hsum, -, hopen, hmono⟩ := expiry_exact hbrink window
  refine ⟨hbrink, plain_last, hopens, hlength, hsum.trans (by decide), ?_,
    hmono plain_last hopens hlength⟩
  exact hopen.2 ⟨by decide, by decide⟩

end AuthVault.Instant
