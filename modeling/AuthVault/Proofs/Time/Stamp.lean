import AuthVault.Time.Stamp
import AuthVault.Proofs.Time.Calendar
import Mathlib.Algebra.Group.Nat.Defs

/-!
# Time stamps read back

`ofStamp?_stamp` and `ofStamp?_seed`: both written forms of an instant stand for it, so different
instants are written differently (`seed_injective`). A number padded with zeros is read back from
its width (`number?_padded`), a year outside four digits up to the character behind it
(`year?_yearText`), and the parts are put together again by way of the calendar (`ofLocal?_parts`).
A leap second is written as the 61st of its minute, and read as nanoseconds beyond those of the
60th.
-/

namespace AuthVault.Text.Decimal

/-! ### Padded numbers -/

theorem length_digits_le {w n : Nat} (hw : 0 < w) (h : n < 10 ^ w) : (digits n).length ≤ w := by
  induction w generalizing n with
  | zero => contradiction
  | succ w ih =>
    rw [digits_eq]
    split
    · exact Nat.le_add_left 1 w
    · have hshort : n / 10 < 10 ^ w := by
        rw [Nat.pow_succ] at h
        omega
      have hpos : 0 < w := by
        apply Nat.pos_of_ne_zero
        intro hzero
        rw [hzero, Nat.pow_zero] at hshort
        omega
      rw [List.length_append]
      exact Nat.succ_le_succ (ih hpos hshort)

theorem length_padded {w n : Nat} (hw : 0 < w) (h : n < 10 ^ w) : (padded w n).length = w := by
  have := length_digits_le hw h
  simp only [padded, List.length_append, List.length_replicate]
  omega

theorem value_replicate_append (k : Nat) (cs : List Char) :
    value (List.replicate k '0' ++ cs) = value cs := by
  induction k with
  | zero => rfl
  | succ k ih => exact ih

theorem value_padded (w n : Nat) : value (padded w n) = n := by
  rw [padded, value_replicate_append, value_digits]

theorem isDigit_of_mem_padded {w n : Nat} : ∀ c ∈ padded w n, isDigit c = true := by
  intro c hc
  rcases List.mem_append.1 hc with hc | hc
  · rw [List.eq_of_mem_replicate hc]; rfl
  · exact isDigit_of_mem_digits hc

theorem padded_ne_nil (w n : Nat) : padded w n ≠ [] :=
  List.append_ne_nil_of_right_ne_nil _ (digits_ne_nil n)

theorem takeWhile_padded_self (w n : Nat) : (padded w n).takeWhile isDigit = padded w n := by
  have h : (padded w n ++ []).takeWhile isDigit = padded w n ++ [].takeWhile isDigit :=
    List.takeWhile_append_of_pos isDigit_of_mem_padded
  simpa using h

theorem takeWhile_padded (w n : Nat) {c : Char} (hc : isDigit c = false) (rest : List Char) :
    (padded w n ++ c :: rest).takeWhile isDigit = padded w n := by
  rw [List.takeWhile_append_of_pos isDigit_of_mem_padded, List.takeWhile_cons, hc]
  simp

theorem dropWhile_padded (w n : Nat) {c : Char} (hc : isDigit c = false) (rest : List Char) :
    (padded w n ++ c :: rest).dropWhile isDigit = c :: rest := by
  rw [List.dropWhile_append_of_pos isDigit_of_mem_padded, List.dropWhile_cons, hc]
  rfl

theorem isBlank_of_isDigit {c : Char} (h : isDigit c = true) : isBlank c = false := by
  obtain ⟨hlow, hhigh⟩ := isDigit_iff.1 h
  simp only [isBlank, Bool.or_eq_false_iff, Bool.and_eq_false_iff, decide_eq_false_iff_not,
    beq_eq_false_iff_ne]
  omega

end AuthVault.Text.Decimal

namespace AuthVault.Instant

open Text

/-! ### Parts -/

theorem trimStart_cons {c : Char} (h : isBlank c = false) (rest : List Char) :
    trimStart (c :: rest) = c :: rest := by
  rw [trimStart, List.dropWhile_cons, h]
  rfl

theorem trimStart_padded (w n : Nat) (rest : List Char) :
    trimStart (Decimal.padded w n ++ rest) = Decimal.padded w n ++ rest := by
  obtain ⟨c, cs, hcs⟩ := List.exists_cons_of_ne_nil (Decimal.padded_ne_nil w n)
  have hc : Decimal.isDigit c = true := Decimal.isDigit_of_mem_padded c
    (hcs ▸ List.mem_cons_self ..)
  rw [hcs, List.cons_append, trimStart_cons (Decimal.isBlank_of_isDigit hc)]

theorem number?_padded {w n : Nat} (hw : 0 < w) (h : n < 10 ^ w) (rest : List Char) :
    number? w (Decimal.padded w n ++ rest) = some (n, rest) := by
  have hlength := Decimal.length_padded hw h
  have htake : (Decimal.padded w n ++ rest).take w = Decimal.padded w n := by
    rw [List.take_append_of_le_length (by omega), List.take_of_length_le (by omega)]
  have hdrop : (Decimal.padded w n ++ rest).drop (Decimal.padded w n).length = rest :=
    List.drop_left
  simp only [number?, htake, Decimal.takeWhile_padded_self, if_neg (Decimal.padded_ne_nil w n),
    hdrop, Decimal.value_padded]

theorem part?_padded {w n : Nat} (hw : 0 < w) (h : n < 10 ^ w) (rest : List Char) :
    part? w (Decimal.padded w n ++ rest) = some (n, rest) := by
  rw [part?, trimStart_padded]
  exact number?_padded hw h rest

theorem numberBelow?_padded {limit w n : Nat} (h : n < limit) {c : Char}
    (hc : Decimal.isDigit c = false) (rest : List Char) :
    numberBelow? limit (Decimal.padded w n ++ c :: rest) = some (n, c :: rest) := by
  simp only [numberBelow?, Decimal.takeWhile_padded w n hc, Decimal.dropWhile_padded w n hc,
    if_neg (Decimal.padded_ne_nil w n), Decimal.valueBelow?_eq, Decimal.value_padded, if_pos h,
    Option.map_some]

theorem mark?_cons {c : Char} (h : isBlank c = false) (rest : List Char) :
    mark? c (c :: rest) = some rest := by
  rw [mark?, trimStart_cons h]
  exact if_pos rfl

/-- A written year is read up to the mark behind it. -/
theorem year?_yearText {year : Int} (hlow : -1_000_000 < year) (hhigh : year < 1_000_000) {c : Char}
    (hc : Decimal.isDigit c = false) (rest : List Char) :
    year? (yearText year ++ c :: rest) = some (year, c :: rest) := by
  unfold yearText
  split
  · next h =>
    have hnat : (year.toNat : Int) = year := Int.toNat_of_nonneg h.1
    obtain ⟨d, ds, hds⟩ := List.exists_cons_of_ne_nil (Decimal.padded_ne_nil 4 year.toNat)
    have hd : Decimal.isDigit d = true :=
      Decimal.isDigit_of_mem_padded d (hds ▸ List.mem_cons_self ..)
    have hread := number?_padded (w := 4) (n := year.toNat) (by decide) (by omega) (c :: rest)
    rw [year?, trimStart_padded]
    rw [hds, List.cons_append] at hread ⊢
    split
    · next heq => rw [(List.cons.inj heq).1] at hd; contradiction
    · next heq => rw [(List.cons.inj heq).1] at hd; contradiction
    · simp only [hread, Option.map_some, hnat]
  · split
    · have hnat : (((-year).toNat : Nat) : Int) = -year := Int.toNat_of_nonneg (by omega)
      rw [List.cons_append, year?, trimStart_cons (by decide)]
      have hbelow : (-year).toNat < yearLimit := by unfold yearLimit; omega
      simp only [numberBelow?_padded hbelow hc, Option.map_some, hnat, Int.neg_neg]
    · have hnat : (year.toNat : Int) = year := Int.toNat_of_nonneg (by omega)
      rw [List.cons_append, year?, trimStart_cons (by decide)]
      have hbelow : year.toNat < yearLimit := by unfold yearLimit; omega
      simp only [numberBelow?_padded hbelow hc, Option.map_some, hnat]

/-! ### Fractions -/

theorem fraction?_padded {w n : Nat} (hw : 0 < w) (hw9 : w ≤ 9) (h : n < 10 ^ w) :
    fraction? ('.' :: Decimal.padded w n ++ ['Z']) = some (n * 10 ^ (9 - w), ['Z']) := by
  have hlength := Decimal.length_padded hw h
  have hZ : Decimal.isDigit 'Z' = false := by decide
  have htake : ((Decimal.padded w n ++ ['Z']).take 9).takeWhile Decimal.isDigit
      = Decimal.padded w n := by
    rw [List.take_append, List.take_of_length_le (by omega), hlength]
    cases hrest : 9 - w with
    | zero => simp [Decimal.takeWhile_padded_self]
    | succ k => simp [Decimal.takeWhile_padded w n hZ]
  have hdrop : (Decimal.padded w n ++ ['Z']).drop w = ['Z'] := by
    have h : (Decimal.padded w n ++ ['Z']).drop (Decimal.padded w n).length = ['Z'] :=
      List.drop_left
    rwa [hlength] at h
  have hend : ['Z'].dropWhile Decimal.isDigit = ['Z'] := by decide
  simp only [fraction?, List.cons_append, htake, if_neg (Decimal.padded_ne_nil w n),
    Decimal.value_padded, hlength, hdrop, hend]
  rfl

theorem fraction?_shortFraction {nanos : Nat} (h : nanos < 1_000_000_000) :
    fraction? (shortFraction nanos ++ ['Z']) = some (nanos, ['Z']) := by
  unfold shortFraction
  split_ifs with hzero hmillis hmicros
  · rw [hzero]
    rfl
  · rw [fraction?_padded (by decide) (by decide) (by omega)]
    simp only [Option.some.injEq, Prod.mk.injEq, and_true]
    omega
  · rw [fraction?_padded (by decide) (by decide) (by omega)]
    simp only [Option.some.injEq, Prod.mk.injEq, and_true]
    omega
  · rw [fraction?_padded (by decide) (by decide) h]
    simp

theorem fraction?_longFraction {nanos : Nat} (h : nanos < 1_000_000_000) :
    fraction? (longFraction nanos ++ ['Z']) = some (nanos, ['Z']) := by
  rw [longFraction, fraction?_padded (by decide) (by decide) h]
  simp

/-! ### Whole stamps -/

/-- A stamp of the given parts. -/
def partsText (date : Date) (hour minute second : Nat) (fraction : List Char) : List Char :=
  yearText date.year ++ '-' :: Decimal.padded 2 date.month ++ '-' :: Decimal.padded 2 date.day ++
    'T' :: Decimal.padded 2 hour ++ ':' :: Decimal.padded 2 minute ++
    ':' :: Decimal.padded 2 second ++ fraction ++ ['Z']

/-- A reader goes on with what has been read. -/
theorem bind_of_eq_some {α β : Type} {x : Option α} {a : α} (h : x = some a) (f : α → Option β) :
    (x >>= f) = f a := by
  rw [h]
  rfl

theorem ofStamp?_partsText {date : Date} {hour minute second nanos : Nat} {fraction : List Char}
    (hyear : -1_000_000 < date.year ∧ date.year < 1_000_000) (hmonth : date.month < 100)
    (hday : date.day < 100) (hhour : hour < 100) (hminute : minute < 100) (hsecond : second < 100)
    (hfraction : fraction? (fraction ++ ['Z']) = some (nanos, ['Z'])) :
    ofStamp? (String.ofList (partsText date hour minute second fraction))
      = ofLocal? date hour minute second nanos 0 := by
  have hdash : Decimal.isDigit '-' = false := by decide
  have hletter : isLetter 'T' 'T' ∨ 'T' = ' ' := by decide
  have hoffset : offset? ['Z'] = some (0, []) := by decide
  have htext : (String.ofList (partsText date hour minute second fraction)).toList =
      yearText date.year ++ '-' :: (Decimal.padded 2 date.month ++ '-' ::
        (Decimal.padded 2 date.day ++ 'T' :: (Decimal.padded 2 hour ++ ':' ::
          (Decimal.padded 2 minute ++ ':' ::
            (Decimal.padded 2 second ++ (fraction ++ ['Z'])))))) := by
    simp only [String.toList_ofList, partsText, List.append_assoc, List.cons_append]
  rw [ofStamp?, htext]
  -- the parts and the marks between them, from the left to the right
  refine (bind_of_eq_some (year?_yearText hyear.1 hyear.2 hdash _) _).trans ?_
  refine (bind_of_eq_some (mark?_cons (by decide) _) _).trans ?_
  refine (bind_of_eq_some (part?_padded (by decide) hmonth _) _).trans ?_
  refine (bind_of_eq_some (mark?_cons (by decide) _) _).trans ?_
  refine (bind_of_eq_some (part?_padded (by decide) hday _) _).trans ?_
  refine (if_pos hletter).trans ?_
  refine (bind_of_eq_some rfl _).trans ?_
  refine (bind_of_eq_some (part?_padded (by decide) hhour _) _).trans ?_
  refine (bind_of_eq_some (mark?_cons (by decide) _) _).trans ?_
  refine (bind_of_eq_some (part?_padded (by decide) hminute _) _).trans ?_
  refine (bind_of_eq_some (mark?_cons (by decide) _) _).trans ?_
  refine (bind_of_eq_some (part?_padded (by decide) hsecond _) _).trans ?_
  refine (bind_of_eq_some hfraction _).trans ?_
  refine (bind_of_eq_some hoffset _).trans ?_
  exact if_pos rfl

section Parts

variable (t : Instant)

def date : Date := Date.ofDays (t.second / 86400)

def secondOfDay : Nat := (t.second % 86400).toNat

/-- The written second of an instant, which is 60 in a leap second. -/
def shownSecond : Nat := t.secondOfDay % 60 + if 1_000_000_000 ≤ t.nano then 1 else 0

/-- The nanoseconds of an instant within its written second. -/
def shownNanos : Nat := if 1_000_000_000 ≤ t.nano then t.nano - 1_000_000_000 else t.nano

theorem secondOfDay_lt : t.secondOfDay < 86400 := by
  unfold secondOfDay
  omega

theorem shownNanos_lt : t.shownNanos < 1_000_000_000 := by
  have := t.nano_lt
  unfold shownNanos
  split_ifs <;> omega

theorem shownSecond_le : t.shownSecond ≤ 60 := by
  unfold shownSecond
  split_ifs <;> omega

theorem written_eq (fraction : Nat → List Char) :
    written fraction t = partsText t.date (t.secondOfDay / 3600) (t.secondOfDay / 60 % 60)
      t.shownSecond (fraction t.shownNanos) := rfl

/-- The local date and time of an instant, at no offset, are the instant. -/
theorem ofLocal?_parts :
    ofLocal? t.date (t.secondOfDay / 3600) (t.secondOfDay / 60 % 60) t.shownSecond t.shownNanos 0
      = some t := by
  have hdays : t.date.toDays = t.second / 86400 := Date.toDays_ofDays _
  have hvalid : t.date.isValid = true := Date.isValid_ofDays _
  have hday : (t.secondOfDay : Int) = t.second % 86400 := Int.toNat_of_nonneg (by omega)
  have hlt := t.secondOfDay_lt
  -- the sixtieth second and the nanoseconds beyond it, also when they are written as second 60
  have hsecond : (if t.shownSecond = 60 then (59, t.shownNanos + 1_000_000_000)
      else (t.shownSecond, t.shownNanos)) = (t.secondOfDay % 60, t.nano) := by
    have hleap := t.leap
    unfold shownSecond shownNanos
    by_cases h : 1_000_000_000 ≤ t.nano
    · have h59 : t.secondOfDay % 60 = 59 := by
        have := hleap h
        omega
      rw [if_pos h, if_pos h, h59, if_pos rfl, Nat.sub_add_cancel h]
    · rw [if_neg h, if_neg h, if_neg (by omega)]
      rfl
  have hshown := t.shownSecond_le
  have hbounds : ¬ (¬ t.date.isValid = true ∨ 24 ≤ t.secondOfDay / 3600 ∨
      60 ≤ t.secondOfDay / 60 % 60 ∨ 61 ≤ t.shownSecond) := by
    rintro (h | h | h | h)
    · exact h hvalid
    all_goals omega
  have hsum : t.date.toDays * 86400 + 3600 * (t.secondOfDay / 3600 : Nat) +
      60 * (t.secondOfDay / 60 % 60 : Nat) + (t.secondOfDay % 60 : Nat) = t.second := by
    rw [hdays]
    omega
  unfold ofLocal?
  rw [if_neg hbounds]
  simp only [hsecond, hsum, ofParts?_parts, Option.bind_eq_bind, Option.bind_some, Int.sub_zero]

theorem ofStamp?_written {fraction : Nat → List Char}
    (hfraction : ∀ nanos < 1_000_000_000,
      fraction? (fraction nanos ++ ['Z']) = some (nanos, ['Z'])) :
    ofStamp? (String.ofList (written fraction t)) = some t := by
  have hlow := t.lower
  have hhigh := t.upper
  have hlt := t.secondOfDay_lt
  have hmonth : t.date.month ≤ 12 := (Date.month_ofDays _).2
  have hday : t.date.day ≤ 31 := Date.day_ofDays _
  have hyear : -1_000_000 < t.date.year ∧ t.date.year < 1_000_000 :=
    Date.year_ofDays (by omega) (by omega)
  have hsecond := t.shownSecond_le
  rw [written_eq, ofStamp?_partsText hyear (by omega) (by omega) (by omega) (by omega) (by omega)
    (hfraction _ t.shownNanos_lt)]
  exact ofLocal?_parts t

end Parts

theorem ofStamp?_stamp (t : Instant) : ofStamp? t.stamp = some t :=
  ofStamp?_written t fun _ h => fraction?_shortFraction h

theorem ofStamp?_seed (t : Instant) : ofStamp? t.seed = some t :=
  ofStamp?_written t fun _ h => fraction?_longFraction h

theorem seed_injective {s t : Instant} (h : s.seed = t.seed) : s = t := by
  have hs := ofStamp?_seed s
  rw [h, ofStamp?_seed] at hs
  exact (Option.some.inj hs).symm

end AuthVault.Instant
