/-!
# Decimal numbers

Decimal digits of a number, with leading zeros where a width is asked for (`padded`), and back
(`value`, and `valueBelow?` for numbers with a limit). Main statements: the digits of a number have
its value (`value_digits`), and a number with a limit is read exactly when it is below
(`valueBelow?_eq`).
-/

namespace AuthVault.Text.Decimal

/-- The character for a number below ten. -/
def digit (n : Nat) : Char := Char.ofNat (48 + n)

/-- The decimal digits of a number, without leading zeros, in front of `rest`. -/
def digitsBefore (rest : List Char) (n : Nat) : List Char :=
  if n < 10 then digit n :: rest else digitsBefore (digit (n % 10) :: rest) (n / 10)

/-- The decimal digits of a number, without leading zeros. -/
def digits (n : Nat) : List Char := digitsBefore [] n

/-- The decimal digits of a number, with zeros in front up to `width` characters. -/
def padded (width n : Nat) : List Char :=
  let ds := digits n
  List.replicate (width - ds.length) '0' ++ ds

def isDigit (c : Char) : Bool := '0' ≤ c && c ≤ '9'

def digitValue (c : Char) : Nat := c.toNat - 48

/-- The number that a string of ASCII digits stands for; zero for the empty one. -/
def value (cs : List Char) : Nat := cs.foldl (fun n c => 10 * n + digitValue c) 0

/-- The number that `n` and further digits stand for, as long as it stays below a limit. -/
def extendBelow? (limit n : Nat) : List Char → Option Nat
  | [] => if n < limit then some n else none
  | c :: cs => if n < limit then extendBelow? limit (10 * n + digitValue c) cs else none

/-- The number that a string of ASCII digits stands for, if it is below a limit. -/
def valueBelow? (limit : Nat) (cs : List Char) : Option Nat := extendBelow? limit 0 cs

theorem le_foldl_value (cs : List Char) (n : Nat) :
    n ≤ cs.foldl (fun n c => 10 * n + digitValue c) n := by
  induction cs generalizing n with
  | nil => exact Nat.le_refl n
  | cons c cs ih => exact Nat.le_trans (by omega) (ih (10 * n + digitValue c))

theorem extendBelow?_eq (limit n : Nat) (cs : List Char) :
    extendBelow? limit n cs =
      let m := cs.foldl (fun n c => 10 * n + digitValue c) n
      if m < limit then some m else none := by
  induction cs generalizing n with
  | nil => rfl
  | cons c cs ih =>
    have h := le_foldl_value (c :: cs) n
    unfold extendBelow?
    split
    · exact ih _
    · dsimp only; rw [if_neg (by omega)]

theorem valueBelow?_eq (limit : Nat) (cs : List Char) :
    valueBelow? limit cs = if value cs < limit then some (value cs) else none :=
  extendBelow?_eq limit 0 cs

theorem digitsBefore_eq (rest : List Char) (n : Nat) : digitsBefore rest n = digits n ++ rest := by
  induction n using Nat.strongRecOn generalizing rest with
  | ind n ih =>
    unfold digits digitsBefore
    split
    · rfl
    · rw [ih _ (by omega), ih _ (by omega) [_]]; simp

theorem digits_eq (n : Nat) :
    digits n = if n < 10 then [digit n] else digits (n / 10) ++ [digit (n % 10)] := by
  rw [digits, digitsBefore]
  split
  · rfl
  · exact digitsBefore_eq _ _

theorem isDigit_iff {c : Char} : isDigit c = true ↔ 48 ≤ c.toNat ∧ c.toNat ≤ 57 := by
  rw [isDigit, Bool.and_eq_true, decide_eq_true_eq, decide_eq_true_eq, Char.le_def, Char.le_def,
    UInt32.le_iff_toNat_le, UInt32.le_iff_toNat_le]
  rfl

theorem isDigit_digit {n : Nat} (h : n < 10) : isDigit (digit n) = true := by
  match n with
  | 0 | 1 | 2 | 3 | 4 | 5 | 6 | 7 | 8 | 9 => rfl
  | n + 10 => omega

theorem digitValue_digit {n : Nat} (h : n < 10) : digitValue (digit n) = n := by
  match n with
  | 0 | 1 | 2 | 3 | 4 | 5 | 6 | 7 | 8 | 9 => rfl
  | n + 10 => omega

theorem value_concat (cs : List Char) (c : Char) :
    value (cs ++ [c]) = 10 * value cs + digitValue c := by
  simp [value]

theorem value_digits (n : Nat) : value (digits n) = n := by
  induction n using Nat.strongRecOn with
  | ind n ih =>
    rw [digits_eq]
    split
    · rename_i h; simp [value, digitValue_digit h]
    · rw [value_concat, ih _ (by omega), digitValue_digit (by omega)]
      omega

theorem isDigit_of_mem_digits {n : Nat} {c : Char} (h : c ∈ digits n) : isDigit c = true := by
  induction n using Nat.strongRecOn with
  | ind n ih =>
    rw [digits_eq] at h
    split at h
    · rename_i hn
      rw [List.mem_singleton.1 h]; exact isDigit_digit hn
    · rcases List.mem_append.1 h with h | h
      · exact ih _ (by omega) h
      · rw [List.mem_singleton.1 h]; exact isDigit_digit (by omega)

theorem digits_ne_nil (n : Nat) : digits n ≠ [] := by
  rw [digits_eq]; split <;> simp

end AuthVault.Text.Decimal
