import AuthVault.Proofs.Time.Stamp
import Mathlib.Data.List.DropRight

/-!
# The notation of durations

A text gives a number of units of time (`Spells`): digits, and behind them a name of the unit, with
white space in between and around. Such a text is read as the number of units that it gives, if the
number and its seconds fit 64 bits, and no other text is read at all (`ofText?_exact`). What is read
is told apart by two kinds of characters that no others are of: white space, which is cut off at the
ends, and digits, which begin the text and do not occur in a name.
-/

namespace AuthVault.Text

/-! ### White space at the ends -/

theorem trimEnd_eq (s : List Char) : trimEnd s = s.rdropWhile isBlank := rfl

/-- What begins and ends with other characters is all that is left without the white space around. -/
theorem trim_append {lead core trail : List Char} {first last : Char}
    (hlead : ∀ c ∈ lead, isBlank c = true) (htrail : ∀ c ∈ trail, isBlank c = true)
    (hhead : core.head? = some first) (hfirst : isBlank first = false)
    (hend : core.getLast? = some last) (hlast : isBlank last = false) :
    trim (lead ++ (core ++ trail)) = core := by
  obtain ⟨rest, rfl⟩ := List.head?_eq_some_iff.1 hhead
  obtain ⟨front, hfront⟩ := List.getLast?_eq_some_iff.1 hend
  have hstart : trimStart (lead ++ (first :: rest ++ trail)) = first :: rest ++ trail := by
    rw [trimStart, List.dropWhile_append_of_pos hlead, List.cons_append,
      List.dropWhile_cons_of_neg (by rw [hfirst]; decide)]
  have htrail' : ∀ c ∈ trail.reverse, isBlank c = true := fun c hc =>
    htrail c (List.mem_reverse.1 hc)
  rw [trim, hstart, trimEnd, hfront, List.reverse_append, List.dropWhile_append_of_pos htrail',
    List.reverse_concat, List.dropWhile_cons_of_neg (by rw [hlast]; decide), List.reverse_cons,
    List.reverse_reverse]

/-- A text is what is left of it with white space around. -/
theorem eq_append_trim (s : List Char) :
    ∃ lead trail, (∀ c ∈ lead, isBlank c = true) ∧ (∀ c ∈ trail, isBlank c = true) ∧
      s = lead ++ (trim s ++ trail) := by
  refine ⟨s.takeWhile isBlank, (trimStart s).rtakeWhile isBlank,
    fun c hc => List.mem_takeWhile_imp hc, fun c hc => List.mem_rtakeWhile_imp hc, ?_⟩
  rw [trim, trimEnd_eq, List.rdropWhile_append_rtakeWhile, trimStart,
    List.takeWhile_append_dropWhile]

end AuthVault.Text

namespace AuthVault.Duration

open Text (isBlank trim trim_append eq_append_trim)
open Text.Decimal (isDigit value valueBelow?)

/-! ### Units -/

namespace Measure

/-- The names of a unit in small letters. -/
def names : Measure → List String
  | millis => ["ms"]
  | secs => ["s", "sec", "secs"]
  | minutes => ["m", "min", "mins"]
  | hours => ["h"]

/-- The length of a unit in nanoseconds. -/
def nanos : Measure → Nat
  | millis => 1_000_000
  | secs => 1_000_000_000
  | minutes => 60 * 1_000_000_000
  | hours => 3600 * 1_000_000_000

end Measure

/-! ### Capitals -/

theorem toNat_toLower (c : Char) :
    c.toLower.toNat = if 65 ≤ c.toNat ∧ c.toNat ≤ 90 then c.toNat + 32 else c.toNat := by
  have hcapital : (c.val ≥ 'A'.val ∧ c.val ≤ 'Z'.val) ↔ 65 ≤ c.toNat ∧ c.toNat ≤ 90 := by
    rw [ge_iff_le, UInt32.le_iff_toNat_le, UInt32.le_iff_toNat_le]
    rfl
  unfold Char.toLower
  split
  · next h =>
    have hsum : (c.val + 32).toNat = (c.toNat + 32) % 2 ^ 32 := UInt32.toNat_add c.val 32
    obtain ⟨hlow, hhigh⟩ := hcapital.1 h
    rw [if_pos ⟨hlow, hhigh⟩]
    show (c.val + 32).toNat = c.toNat + 32
    omega
  · next h => rw [if_neg fun hc => h (hcapital.2 hc)]

theorem lower_eq_toLower (c : Char) : lower c = c.toLower := by
  have hcapital : ('A' ≤ c ∧ c ≤ 'Z') ↔ 65 ≤ c.toNat ∧ c.toNat ≤ 90 := by
    rw [Char.le_def, Char.le_def, UInt32.le_iff_toNat_le, UInt32.le_iff_toNat_le]
    rfl
  apply Char.toNat_inj.1
  rw [toNat_toLower, lower]
  by_cases h : 65 ≤ c.toNat ∧ c.toNat ≤ 90
  · have hvalid : (c.toNat + 32).isValidChar := .inl (by omega)
    rw [if_pos h, if_pos (hcapital.2 h), Char.ofNat, dif_pos hvalid]
    rfl
  · rw [if_neg h, if_neg fun hc => h (hcapital.1 hc)]

theorem isBlank_toLower (c : Char) : isBlank c.toLower = isBlank c := by
  simp only [isBlank, toNat_toLower]
  split
  · rw [Bool.eq_iff_iff]
    simp only [Bool.or_eq_true, Bool.and_eq_true, decide_eq_true_eq, beq_iff_eq]
    omega
  · rfl

theorem isDigit_toLower (c : Char) : isDigit c.toLower = isDigit c := by
  rw [Bool.eq_iff_iff, Text.Decimal.isDigit_iff, Text.Decimal.isDigit_iff, toNat_toLower]
  split <;> omega

/-! ### Names of units -/

/-- A text stands for a unit exactly if it is one of its names, in whatever case. -/
theorem ofName?_eq_some_iff {name : List Char} {m : Measure} :
    Measure.ofName? name = some m ↔ String.ofList (name.map Char.toLower) ∈ m.names := by
  have hlower : name.map lower = name.map Char.toLower :=
    List.map_congr_left fun c _ => lower_eq_toLower c
  rw [Measure.ofName?, hlower]
  generalize String.ofList (name.map Char.toLower) = text
  constructor
  · intro h
    split at h
    case h_9 => contradiction
    all_goals
      obtain rfl := Option.some.inj h
      decide
  · intro h
    cases m
    all_goals
      simp only [Measure.names, List.mem_cons, List.not_mem_nil, or_false] at h
      rcases h with rfl | rfl | rfl
    all_goals rfl

/-- There is neither white space nor a digit in a name. -/
theorem plain_of_mem_name {name : List Char} {m : Measure}
    (h : String.ofList (name.map Char.toLower) ∈ m.names) {c : Char} (hc : c ∈ name) :
    isBlank c = false ∧ isDigit c = false := by
  have hnames : ∀ text ∈ m.names,
      text.toList.all (fun c => !isBlank c && !isDigit c) = true := by
    cases m <;> decide
  have hlower := List.all_eq_true.1 (hnames _ h) c.toLower (by
    rw [String.toList_ofList]
    exact List.mem_map_of_mem hc)
  rw [isBlank_toLower, isDigit_toLower] at hlower
  simpa using hlower

theorem ne_nil_of_name {name : List Char} {m : Measure}
    (h : String.ofList (name.map Char.toLower) ∈ m.names) : name ≠ [] := by
  rintro rfl
  cases m <;> simp [Measure.names] at h

/-! ### Numbers of units -/

/-- Every number of nanoseconds whose seconds fit is the length of a duration. -/
theorem exists_toNanos_eq {k : Nat} (h : k < 2 ^ 64 * 1_000_000_000) :
    ∃ d : Duration, d.toNanos = k := by
  refine ⟨⟨k / 1_000_000_000, k % 1_000_000_000, by omega, by omega⟩, ?_⟩
  simp only [toNanos]
  omega

/-- As many units as fit are their length. -/
theorem ofUnits?_eq_some_iff {n : Nat} (hn : n < 2 ^ 64) {m : Measure} {d : Duration} :
    ofUnits? n m = some d ↔ n * m.nanos < 2 ^ 64 * 1_000_000_000 ∧ d.toNanos = n * m.nanos := by
  have hsecs : ∀ k, ofSecs? k = some d ↔
      k * 1_000_000_000 < 2 ^ 64 * 1_000_000_000 ∧ d.toNanos = k * 1_000_000_000 := by
    intro k
    have hbound := d.secs_lt
    have hnanos := d.nanos_lt
    unfold ofSecs?
    split
    · next hk =>
      rw [Option.some.injEq, ← toNanos_inj, eq_comm]
      simp only [toNanos, seconds]
      omega
    · refine iff_of_false (by simp) ?_
      simp only [toNanos]
      omega
  cases m with
  | millis =>
    have hlt : n < 18_446_744_073_709_551_616 := hn
    rw [ofUnits?, ofMillis?, dif_pos hlt, Option.some.injEq, ← toNanos_inj, eq_comm]
    simp only [toNanos, Measure.nanos]
    omega
  | secs => exact hsecs n
  | minutes =>
    rw [ofUnits?, hsecs, Measure.nanos]
    omega
  | hours =>
    rw [ofUnits?, hsecs, Measure.nanos]
    omega

/-! ### Texts -/

/-- What stands behind the digits: a name of the unit, in whatever case and with white space in front
or not, or nothing for seconds. -/
inductive Denotes : (rest : List Char) → Measure → Prop
  | nothing : Denotes [] .secs
  | name {gap name : List Char} {m : Measure} (hgap : ∀ c ∈ gap, isBlank c = true)
      (hname : String.ofList (name.map Char.toLower) ∈ m.names) : Denotes (gap ++ name) m

/-- A text that gives a number of units: digits and the unit, with white space around or not. -/
inductive Spells : (text : List Char) → (n : Nat) → Measure → Prop
  | mk {lead digits rest trail : List Char} {m : Measure} (hlead : ∀ c ∈ lead, isBlank c = true)
      (hne : digits ≠ []) (hdigits : ∀ c ∈ digits, c.isDigit = true) (hrest : Denotes rest m)
      (htrail : ∀ c ∈ trail, isBlank c = true) :
      Spells (lead ++ (digits ++ rest ++ trail)) (value digits) m

theorem isDigit_of_isBlank {c : Char} (h : isBlank c = true) : isDigit c = false := by
  by_contra hdigit
  rw [Text.Decimal.isBlank_of_isDigit (by simpa using hdigit)] at h
  contradiction

theorem Denotes.not_isDigit {rest : List Char} {m : Measure} (h : Denotes rest m) :
    ∀ c ∈ rest, isDigit c = false := by
  cases h with
  | nothing => exact fun c hc => absurd hc List.not_mem_nil
  | name hgap hname =>
    intro c hc
    rcases List.mem_append.1 hc with hc | hc
    · exact isDigit_of_isBlank (hgap c hc)
    · exact (plain_of_mem_name hname hc).2

/-- Behind digits, the last character of all is no white space. -/
theorem Denotes.getLast? {digits rest : List Char} {m : Measure} (h : Denotes rest m)
    (hne : digits ≠ []) (hdigits : ∀ c ∈ digits, c.isDigit = true) :
    ∃ last, (digits ++ rest).getLast? = some last ∧ isBlank last = false := by
  cases h with
  | nothing =>
    refine ⟨digits.getLast hne, by rw [List.append_nil, List.getLast?_eq_some_getLast hne], ?_⟩
    exact Text.Decimal.isBlank_of_isDigit (hdigits _ (List.getLast_mem hne))
  | @name gap name m hgap hname =>
    have hname_ne := ne_nil_of_name hname
    refine ⟨name.getLast hname_ne, ?_, (plain_of_mem_name hname (List.getLast_mem hname_ne)).1⟩
    rw [← List.append_assoc, List.getLast?_append, List.getLast?_eq_some_getLast hname_ne]
    rfl

/-- The name is found behind the white space. -/
theorem trim_gap_append {gap name : List Char} {m : Measure} (hgap : ∀ c ∈ gap, isBlank c = true)
    (hname : String.ofList (name.map Char.toLower) ∈ m.names) : trim (gap ++ name) = name := by
  have hne := ne_nil_of_name hname
  have htrim : trim (gap ++ (name ++ [])) = name :=
    trim_append hgap (fun _ hc => absurd hc List.not_mem_nil)
      (List.head?_eq_some_head hne) (plain_of_mem_name hname (List.head_mem hne)).1
      (List.getLast?_eq_some_getLast hne) (plain_of_mem_name hname (List.getLast_mem hne)).1
  rwa [List.append_nil] at htrim

/-- The unit of what stands behind the digits. -/
theorem Denotes.unit_eq {rest : List Char} {m : Measure} (h : Denotes rest m) (n : Nat) :
    (if rest = [] then ofUnits? n .secs else (Measure.ofName? (trim rest)).bind (ofUnits? n))
      = ofUnits? n m := by
  cases h with
  | nothing => exact if_pos rfl
  | @name gap name m hgap hname =>
    have hne : gap ++ name ≠ [] := List.append_ne_nil_of_right_ne_nil gap (ne_nil_of_name hname)
    rw [if_neg hne, trim_gap_append hgap hname, ofName?_eq_some_iff.2 hname, Option.bind_some]

/-- A number of units that a text gives is read, as far as it fits. -/
theorem Spells.ofText?_eq {s : String} {n : Nat} {m : Measure} (h : Spells s.toList n m) :
    ofText? s = if n < 2 ^ 64 then ofUnits? n m else none := by
  generalize htext : s.toList = text at h
  cases h with
  | @mk lead digits rest trail m hlead hne hdigits hrest htrail =>
    obtain ⟨last, hend, hlast⟩ := hrest.getLast? hne hdigits
    have hfirst : isBlank (digits.head hne) = false :=
      Text.Decimal.isBlank_of_isDigit (hdigits _ (List.head_mem hne))
    have hhead : (digits ++ rest).head? = some (digits.head hne) := by
      rw [List.head?_append, List.head?_eq_some_head hne, Option.some_or]
    have htrim : trim s.toList = digits ++ rest := by
      rw [htext]
      exact trim_append hlead htrail hhead hfirst hend hlast
    have hstop : rest.takeWhile isDigit = [] ∧ rest.dropWhile isDigit = rest := by
      cases rest with
      | nil => exact ⟨rfl, rfl⟩
      | cons c rest =>
        have hc : ¬ isDigit c = true := by simp [hrest.not_isDigit c List.mem_cons_self]
        exact ⟨List.takeWhile_cons_of_neg hc, List.dropWhile_cons_of_neg hc⟩
    have hall : ∀ c ∈ digits, isDigit c = true := hdigits
    have htake : (digits ++ rest).takeWhile isDigit = digits := by
      rw [List.takeWhile_append_of_pos hall, hstop.1, List.append_nil]
    have hdrop : (digits ++ rest).dropWhile isDigit = rest := by
      rw [List.dropWhile_append_of_pos hall, hstop.2]
    simp only [ofText?, htrim, htake, hdrop, if_neg hne, Text.Decimal.valueBelow?_eq, hrest.unit_eq]
    by_cases hn : value digits < 2 ^ 64
    · rw [if_pos hn, if_pos (show value digits < UInt64.size from hn)]
    · rw [if_neg hn, if_neg (show ¬ value digits < UInt64.size from hn)]

/-- What is taken for a unit stands for one, with white space behind it or not. -/
theorem exists_denotes {rest : List Char} {n : Nat} {d : Duration}
    (h : (if rest = [] then ofUnits? n .secs else (Measure.ofName? (trim rest)).bind (ofUnits? n))
      = some d) :
    ∃ shown after m, Denotes shown m ∧ (∀ c ∈ after, isBlank c = true) ∧ rest = shown ++ after := by
  split at h
  · next hrest => exact ⟨[], [], .secs, .nothing, fun _ hc => absurd hc List.not_mem_nil, hrest⟩
  · obtain ⟨m, hname, -⟩ := Option.bind_eq_some_iff.1 h
    obtain ⟨gap, after, hgap, hafter, hsplit⟩ := eq_append_trim rest
    refine ⟨gap ++ trim rest, after, m, .name hgap (ofName?_eq_some_iff.1 hname), hafter, ?_⟩
    rw [List.append_assoc]
    exact hsplit

/-- Only a text that gives a number of units is read. -/
theorem exists_spells {s : String} {d : Duration} (h : ofText? s = some d) :
    ∃ n m, Spells s.toList n m := by
  obtain ⟨lead, trail, hlead, htrail, hsplit⟩ := eq_append_trim s.toList
  have hcore := List.takeWhile_append_dropWhile (p := isDigit) (l := trim s.toList)
  have hdigits : ∀ c ∈ (trim s.toList).takeWhile isDigit, c.isDigit = true := fun c hc =>
    List.mem_takeWhile_imp hc
  simp only [ofText?] at h
  generalize (trim s.toList).takeWhile isDigit = digits at h hcore hdigits
  generalize (trim s.toList).dropWhile isDigit = rest at h hcore
  split at h
  · contradiction
  · next hne =>
    split at h
    · contradiction
    · obtain ⟨shown, after, m, hshown, hafter, rfl⟩ := exists_denotes h
      have hblank : ∀ c ∈ after ++ trail, isBlank c = true := fun c hc =>
        (List.mem_append.1 hc).elim (hafter c) (htrail c)
      have hwhole : s.toList = lead ++ (digits ++ shown ++ (after ++ trail)) := by
        rw [hsplit, ← hcore]
        simp only [List.append_assoc]
      rw [hwhole]
      exact ⟨_, m, .mk hlead hne hdigits hshown hblank⟩

/-- A text is read as a duration exactly if it gives a number of units that fits 64 bits, as its
seconds do; it is then as long as so many units. -/
theorem ofText?_exact (s : String) :
    (∀ d, ofText? s = some d ↔ ∃ n m, Spells s.toList n m ∧ n < 2 ^ 64 ∧
      n * m.nanos < 2 ^ 64 * 1_000_000_000 ∧ d.toNanos = n * m.nanos) ∧
      (ofText? s = none ↔ ∀ n m, Spells s.toList n m →
        2 ^ 64 ≤ n ∨ 2 ^ 64 * 1_000_000_000 ≤ n * m.nanos) := by
  have hread : ∀ {n m}, Spells s.toList n m → ∀ d, ofText? s = some d ↔
      n < 2 ^ 64 ∧ n * m.nanos < 2 ^ 64 * 1_000_000_000 ∧ d.toNanos = n * m.nanos := by
    intro n m hspells d
    rw [hspells.ofText?_eq]
    by_cases hn : n < 2 ^ 64
    · rw [if_pos hn, ofUnits?_eq_some_iff hn]
      exact (and_iff_right hn).symm
    · rw [if_neg hn]
      exact iff_of_false (by simp) fun h => hn h.1
  refine ⟨fun d => ⟨fun h => ?_, ?_⟩, fun h n m hspells => ?_, fun h => ?_⟩
  · obtain ⟨n, m, hspells⟩ := exists_spells h
    exact ⟨n, m, hspells, (hread hspells d).1 h⟩
  · rintro ⟨n, m, hspells, hfits⟩
    exact (hread hspells d).2 hfits
  · by_contra hfits
    obtain ⟨hn, hseconds⟩ := not_or.1 hfits
    obtain ⟨d, hd⟩ := exists_toNanos_eq (Nat.lt_of_not_le hseconds)
    rw [(hread hspells d).2 ⟨Nat.lt_of_not_le hn, Nat.lt_of_not_le hseconds, hd⟩] at h
    contradiction
  · rw [Option.eq_none_iff_forall_ne_some]
    intro d hd
    obtain ⟨n, m, hspells⟩ := exists_spells hd
    obtain ⟨hn, hseconds, -⟩ := (hread hspells d).1 hd
    have := h n m hspells
    omega

end AuthVault.Duration
