import AuthVault.Time.Calendar
import Mathlib.Tactic.SplitIfs

/-!
# Dates and days agree

`toDays_ofDays`: the date a number of days after 1970-01-01 is that number of days away, and it
exists (`isValid_ofDays`). Within an era, the year is found by spreading its days over 400 years of
365 (`spread`): the spread of the first day of a year is not below its 365 days, that of the day
before is (`spread_firstDay`), and the spread is monotone, so the quotient by 365 is the year
(`yearOfEra_bounds`).
-/

namespace AuthVault.Date

/-! ### Years of an era -/

/-- The days of an era without those that leap years have more, up to a day. -/
def spread (d : Nat) : Nat := d - d / 1460 + d / 36524 - d / 146096

/-- The first day of a year of an era. -/
def firstDay (y : Nat) : Nat := 365 * y + y / 4 - y / 100

theorem spread_mono {d e : Nat} (h : d ≤ e) : spread d ≤ spread e := by
  have h1 : d - d / 1460 ≤ e - e / 1460 := by omega
  have h2 : d / 36524 ≤ e / 36524 := Nat.div_le_div_right h
  have h3 : ∀ n, n / 146096 = n / 36524 / 4 := fun n => by rw [Nat.div_div_eq_div_mul]
  unfold spread
  rw [h3, h3]
  generalize d / 36524 = p at *
  generalize e / 36524 = q at *
  omega

theorem spread_firstDay {y : Nat} (h : y < 400) :
    365 * y ≤ spread (firstDay y) ∧ (0 < y → spread (firstDay y - 1) < 365 * y) := by
  have all : ∀ y < 400, 365 * y ≤ spread (firstDay y) ∧
      (0 < y → spread (firstDay y - 1) < 365 * y) := by decide +kernel
  exact all y h

/-- The year of a day of an era. -/
def yearOfEra (d : Nat) : Nat := spread d / 365

theorem yearOfEra_bounds {d : Nat} (h : d < 146097) :
    yearOfEra d < 400 ∧ firstDay (yearOfEra d) ≤ d ∧
      (yearOfEra d < 399 → d < firstDay (yearOfEra d + 1)) := by
  have hlast : spread d ≤ spread 146096 := spread_mono (by omega)
  rw [show spread 146096 = 145999 by decide] at hlast
  have hyear : yearOfEra d < 400 := by unfold yearOfEra; omega
  have hquotient : 365 * yearOfEra d ≤ spread d ∧ spread d < 365 * (yearOfEra d + 1) := by
    unfold yearOfEra
    omega
  refine ⟨hyear, ?_, fun hnext => ?_⟩
  · apply Nat.not_lt.1
    intro hlt
    have hpos : 0 < yearOfEra d := by
      apply Nat.pos_of_ne_zero
      intro hzero
      rw [hzero] at hlt
      exact absurd hlt (Nat.not_lt_zero d)
    have := (spread_firstDay hyear).2 hpos
    have : spread d ≤ spread (firstDay (yearOfEra d) - 1) := spread_mono (by omega)
    omega
  · apply Nat.not_le.1
    intro hge
    have := (spread_firstDay (y := yearOfEra d + 1) (by omega)).1
    have : spread (firstDay (yearOfEra d + 1)) ≤ spread d := spread_mono (by omega)
    omega

/-- A year of an era has 365 days, and one more before the leap day is over. -/
theorem dayOfYear_le {d : Nat} (h : d < 146097) :
    d - firstDay (yearOfEra d) ≤ 365 ∧
      (d - firstDay (yearOfEra d) = 365 →
        (yearOfEra d + 1) % 4 = 0 ∧ ((yearOfEra d + 1) % 100 ≠ 0 ∨ yearOfEra d = 399)) := by
  obtain ⟨hyear, hlow, hhigh⟩ := yearOfEra_bounds h
  generalize yearOfEra d = y at *
  unfold firstDay at *
  by_cases hlast : y < 399
  · have hnext := hhigh hlast
    have hfourth : (y + 1) / 4 ≤ y / 4 + 1 := by omega
    have hcentury : y / 100 ≤ (y + 1) / 100 := by omega
    refine ⟨by omega, fun hleap => ?_⟩
    have hleap4 : (y + 1) / 4 = y / 4 + 1 := by omega
    have hleap100 : (y + 1) / 100 = y / 100 := by omega
    exact ⟨by omega, .inl (by omega)⟩
  · obtain rfl : y = 399 := by omega
    exact ⟨by omega, fun _ => ⟨rfl, .inr rfl⟩⟩

/-! ### Months -/

def monthOf (doy : Nat) : Nat :=
  if (5 * doy + 2) / 153 < 10 then (5 * doy + 2) / 153 + 3 else (5 * doy + 2) / 153 - 9

/-- The day of the month of a day of a year that begins in March. -/
def dayOf (doy : Nat) : Nat := doy - (153 * ((5 * doy + 2) / 153) + 2) / 5 + 1

theorem monthOf_bounds {doy : Nat} (h : doy ≤ 365) : 1 ≤ monthOf doy ∧ monthOf doy ≤ 12 := by
  unfold monthOf
  split_ifs <;> omega

theorem daysInMonth_of_ne_february {month : Nat} (h : month ≠ 2) (year : Int) :
    daysInMonth 1 month = daysInMonth year month := by
  unfold daysInMonth
  split <;> first | rfl | contradiction

theorem daysInMonth_common_le (year : Int) (month : Nat) :
    daysInMonth 1 month ≤ daysInMonth year month := by
  by_cases hmonth : month = 2
  · subst hmonth
    show 28 ≤ if isLeap year then 29 else 28
    split <;> decide
  · exact Nat.le_of_eq (daysInMonth_of_ne_february hmonth year)

theorem daysInMonth_of_isLeap {year : Int} (h : isLeap year = true) (month : Nat) :
    daysInMonth year month = daysInMonth 0 month := by
  unfold daysInMonth
  rw [h]
  rfl

theorem dayOf_le_common {doy : Nat} (h : doy < 365) : dayOf doy ≤ daysInMonth 1 (monthOf doy) := by
  have all : ∀ doy < 365, dayOf doy ≤ daysInMonth 1 (monthOf doy) := by decide +kernel
  exact all doy h

/-- The 366th day exists in leap years. -/
theorem dayOf_le {doy : Nat} (h : doy ≤ 365) {year : Int} (hleap : doy = 365 → isLeap year = true) :
    dayOf doy ≤ daysInMonth year (monthOf doy) := by
  by_cases hlast : doy = 365
  · rw [daysInMonth_of_isLeap (hleap hlast), hlast]
    decide
  · exact Nat.le_trans (dayOf_le_common (by omega)) (daysInMonth_common_le year _)

/-! ### Dates -/

/-- The date of a day of an era. -/
theorem ofDays_eq (n : Int) :
    ∃ (era : Int) (d : Nat), d < 146097 ∧ n + 719468 = era * 146097 + d ∧
      ofDays n =
        { year := if monthOf (d - firstDay (yearOfEra d)) ≤ 2
            then (yearOfEra d : Int) + era * 400 + 1 else (yearOfEra d : Int) + era * 400,
          month := monthOf (d - firstDay (yearOfEra d)),
          day := dayOf (d - firstDay (yearOfEra d)) } :=
  ⟨(n + 719468) / 146097, (n + 719468 - (n + 719468) / 146097 * 146097).toNat, by omega, by omega,
    rfl⟩

theorem toDays_ofDays (n : Int) : (ofDays n).toDays = n := by
  obtain ⟨era, d, hd, hn, heq⟩ := ofDays_eq n
  obtain ⟨hyear, hlow, -⟩ := yearOfEra_bounds hd
  obtain ⟨hdoy, -⟩ := dayOfYear_le hd
  rw [heq]
  generalize yearOfEra d = y at *
  have hsum : firstDay y + (d - firstDay y) = d := by omega
  generalize d - firstDay y = doy at *
  have hback : ∀ year : Int, (if monthOf doy ≤ 2
      then (if monthOf doy ≤ 2 then year + 1 else year) - 1
      else (if monthOf doy ≤ 2 then year + 1 else year)) = year := by
    intro year
    split_ifs <;> omega
  have hmonth : (monthOf doy + 9) % 12 = (5 * doy + 2) / 153 := by
    unfold monthOf
    split_ifs <;> omega
  have hday : (153 * ((5 * doy + 2) / 153) + 2) / 5 + dayOf doy - 1 = doy := by
    unfold dayOf
    omega
  have hera : ((y : Int) + era * 400) / 400 = era := by omega
  have hyoe : (y : Int) + era * 400 - era * 400 = y := by omega
  unfold toDays
  simp only [hback, hmonth, hday, hera, hyoe]
  unfold firstDay at hsum
  omega

theorem month_ofDays (n : Int) : 1 ≤ (ofDays n).month ∧ (ofDays n).month ≤ 12 := by
  obtain ⟨era, d, hd, -, heq⟩ := ofDays_eq n
  rw [heq]
  exact monthOf_bounds (dayOfYear_le hd).1

/-- The date of a number of days exists. -/
theorem isValid_ofDays (n : Int) : (ofDays n).isValid = true := by
  obtain ⟨era, d, hd, -, heq⟩ := ofDays_eq n
  obtain ⟨hdoy, hlast⟩ := dayOfYear_le hd
  rw [heq, isValid, Bool.and_eq_true, decide_eq_true_eq, decide_eq_true_eq]
  generalize yearOfEra d = y at *
  generalize d - firstDay y = doy at *
  refine ⟨Nat.le_add_left 1 _, dayOf_le hdoy fun hleap => ?_⟩
  obtain ⟨hfour, hcentury⟩ := hlast hleap
  have hmonth : monthOf doy ≤ 2 := by rw [hleap]; decide
  dsimp only
  rw [if_pos hmonth, isLeap]
  simp only [Bool.and_eq_true, Bool.or_eq_true, beq_iff_eq, bne_iff_ne]
  exact ⟨by omega, by omega⟩

theorem day_ofDays (n : Int) : (ofDays n).day ≤ 31 := by
  obtain ⟨era, d, hd, -, heq⟩ := ofDays_eq n
  have hdoy := (dayOfYear_le hd).1
  rw [heq]
  show d - firstDay (yearOfEra d) - _ + 1 ≤ 31
  omega

theorem year_ofDays {n : Int} (hlow : -100_000_000 ≤ n) (hhigh : n ≤ 100_000_000) :
    -1_000_000 < (ofDays n).year ∧ (ofDays n).year < 1_000_000 := by
  obtain ⟨era, d, hd, hn, heq⟩ := ofDays_eq n
  have hyear := (yearOfEra_bounds hd).1
  rw [heq]
  dsimp only
  split_ifs <;> omega

end AuthVault.Date
