import AuthVault.Json.Number
import AuthVault.Proofs.Json.Text

/-!
# Written numbers are read back

A natural number below `2 ^ 64` that is written in front of a comma or a closing brace is read back
(`readNatural_decimal`). The digits are taken one by one, and the number that they amount to stays
below the limit on the way since it does so in the end (`absorbDigits_digits`). A number begins with
a zero only if it is zero (`digits_of_ne_zero`), which is where the reader looks before anything
else.
-/

namespace AuthVault.Json

open Text

/-- The byte of an ASCII character. -/
def byteOf (c : Char) : UInt8 := c.toNat.toUInt8

theorem decimal_eq (n : Nat) : decimal n = (Decimal.digits n).map byteOf := rfl

theorem toNat_byteOf {c : Char} (h : Decimal.isDigit c = true) :
    (byteOf c).toNat = c.toNat := by
  obtain ⟨-, hhigh⟩ := Decimal.isDigit_iff.1 h
  rw [byteOf, Nat.toUInt8, UInt8.toNat_ofNat']
  omega

theorem isDigit_iff {b : UInt8} : isDigit b = true ↔ 48 ≤ b.toNat ∧ b.toNat ≤ 57 := by
  rw [isDigit, Bool.and_eq_true, decide_eq_true_eq, decide_eq_true_eq, UInt8.le_iff_toNat_le,
    UInt8.le_iff_toNat_le]
  rfl

theorem isDigit_byteOf {c : Char} (h : Decimal.isDigit c = true) : isDigit (byteOf c) = true := by
  rw [isDigit_iff, toNat_byteOf h]
  exact Decimal.isDigit_iff.1 h

theorem isSpace_of_isDigit {b : UInt8} (h : isDigit b = true) : isSpace b = false := by
  have hbounds := isDigit_iff.1 h
  simp only [isSpace, Bool.or_eq_false_iff, beq_eq_false_iff_ne, ne_eq, ← UInt8.toNat_inj,
    UInt8.reduceToNat]
  omega

/-- Digits are taken as long as the number stays below the limit. -/
theorem absorbDigits_digits {cs : List Char} (hcs : ∀ c ∈ cs, Decimal.isDigit c = true)
    {rest : Bytes} (hrest : digitNext rest = false) (n count : Nat)
    (hbelow : cs.foldl (fun n c => 10 * n + Decimal.digitValue c) n < UInt64.size) :
    absorbDigits n count (cs.map byteOf ++ rest)
      = (cs.foldl (fun n c => 10 * n + Decimal.digitValue c) n, count + cs.length, rest) := by
  induction cs generalizing n count with
  | nil =>
    cases rest with
    | nil => rfl
    | cons b rest =>
      rw [List.map_nil, List.nil_append, absorbDigits, if_neg]
      · rfl
      · rintro ⟨hdigit, -⟩
        have hb : isDigit b = false := hrest
        rw [hb] at hdigit
        cases hdigit
  | cons c cs ih =>
    have hc := hcs c List.mem_cons_self
    have hle := Decimal.le_foldl_value cs (10 * n + Decimal.digitValue c)
    have hvalue : (byteOf c).toNat - 48 = Decimal.digitValue c := by
      rw [toNat_byteOf hc, Decimal.digitValue]
    rw [List.foldl_cons] at hbelow ⊢
    rw [List.map_cons, List.cons_append, absorbDigits]
    simp only [hvalue]
    rw [if_pos ⟨isDigit_byteOf hc, Nat.lt_of_le_of_lt hle hbelow⟩,
      ih (fun x hx => hcs x (List.mem_cons_of_mem _ hx)) _ _ hbelow, List.length_cons]
    congr 2
    omega

/-- A number that is not zero does not begin with a zero. -/
theorem digits_of_ne_zero {n : Nat} (h : n ≠ 0) :
    ∃ c cs, Decimal.digits n = c :: cs ∧ Decimal.digitValue c ≠ 0 := by
  induction n using Nat.strongRecOn with
  | ind n ih =>
    rw [Decimal.digits_eq]
    split
    · next hn => exact ⟨Decimal.digit n, [], rfl, by rwa [Decimal.digitValue_digit hn]⟩
    · obtain ⟨c, cs, hdigits, hc⟩ := ih (n / 10) (by omega) (by omega)
      exact ⟨c, cs ++ [Decimal.digit (n % 10)], by rw [hdigits]; rfl, hc⟩

section Read

variable {n : Nat} {c : UInt8} {rest : Bytes}

theorem digitNext_of_mark (hc : c = 44 ∨ c = 125) : digitNext (c :: rest) = false := by
  rcases hc with rfl | rfl <;> rfl

theorem afterWhole_of_mark (hc : c = 44 ∨ c = 125) (n : Nat) :
    afterWhole false n (c :: rest) = .ok (.natural n, c :: rest) := by
  rcases hc with rfl | rfl <;> rfl

theorem unsignedNumber_decimal (hc : c = 44 ∨ c = 125) (hn : n < UInt64.size) :
    unsignedNumber false (decimal n ++ c :: rest) = .ok (.natural n, c :: rest) := by
  by_cases hzero : n = 0
  · subst hzero
    have hdecimal : decimal 0 = [48] := by rw [decimal_eq, Decimal.digits_eq]; rfl
    rw [hdecimal, List.singleton_append, unsignedNumber, if_neg (by decide), if_pos rfl,
      digitNext_of_mark hc]
    exact afterWhole_of_mark hc 0
  · obtain ⟨d, ds, hdigits, hd⟩ := digits_of_ne_zero hzero
    have hall : ∀ x ∈ d :: ds, Decimal.isDigit x = true := fun x hx =>
      Decimal.isDigit_of_mem_digits (hdigits ▸ hx)
    have hdigit := hall d List.mem_cons_self
    have hvalue :
        ds.foldl (fun n c => 10 * n + Decimal.digitValue c) (Decimal.digitValue d) = n := by
      rw [← Decimal.value_digits n, hdigits, Decimal.value, List.foldl_cons, Nat.mul_zero,
        Nat.zero_add]
    have hfirst : (byteOf d).toNat - 48 = Decimal.digitValue d := by
      rw [toNat_byteOf hdigit, Decimal.digitValue]
    have hnonzero : byteOf d ≠ 48 := by
      intro h48
      rw [h48] at hfirst
      exact hd hfirst.symm
    have hnext : digitNext (c :: rest) = false := digitNext_of_mark hc
    have habsorb := absorbDigits_digits (fun x hx => hall x (List.mem_cons_of_mem _ hx)) hnext
      (Decimal.digitValue d) 0 (by rw [hvalue]; exact hn)
    rw [decimal_eq, hdigits, List.map_cons, List.cons_append, unsignedNumber,
      if_neg (by rw [isDigit_byteOf hdigit]; decide), if_neg hnonzero, hfirst]
    simp only [habsorb, hvalue, hnext]
    exact afterWhole_of_mark hc n

theorem readNumber_of_isDigit {b : UInt8} (h : isDigit b = true) (rest : Bytes) :
    readNumber (b :: rest) = unsignedNumber false (b :: rest) := by
  unfold readNumber
  split
  · next heq =>
    rw [(List.cons.inj heq).1] at h
    contradiction
  · rfl

/-- A number that is written in front of a comma or a brace is read back. -/
theorem readNatural_decimal {limit : Nat} (hc : c = 44 ∨ c = 125) (hlimit : limit ≤ UInt64.size)
    (hn : n < limit) : readNatural limit (decimal n ++ c :: rest) = .ok (n, c :: rest) := by
  obtain ⟨d, ds, hdigits⟩ := List.exists_cons_of_ne_nil (Decimal.digits_ne_nil n)
  have hdigit : isDigit (byteOf d) = true :=
    isDigit_byteOf (Decimal.isDigit_of_mem_digits (hdigits ▸ List.mem_cons_self))
  have hnumber : unsignedNumber false (decimal n ++ c :: rest) = .ok (.natural n, c :: rest) :=
    unsignedNumber_decimal hc (Nat.lt_of_lt_of_le hn hlimit)
  rw [decimal_eq, hdigits, List.map_cons, List.cons_append] at hnumber ⊢
  rw [readNatural, bind_ok (peek_cons (isSpace_of_isDigit hdigit) _)]
  show (if byteOf d = 45 ∨ isDigit (byteOf d) = true then _ else _ : Reader Nat) _ = _
  rw [if_pos (.inr hdigit), bind_ok ((readNumber_of_isDigit hdigit _).trans hnumber)]
  show (if n < limit then _ else _ : Reader Nat) _ = _
  rw [if_pos hn]
  rfl

end Read

end AuthVault.Json
