/-!
# Byte strings

Everything that is stored, hashed, sent or read from a file is a list of bytes. This module relates
byte strings to texts by UTF-8 (`ofText`, `text?`) and writes them in lower-case hexadecimal digits
(`hex`). Main statements: a text is read back from its bytes (`text?_ofText`), and the bytes are the
only ones that read as that text (`text?_eq_some_iff`).
-/

namespace AuthVault

abbrev Bytes := List UInt8

namespace Bytes

def ofText (s : String) : Bytes := s.toByteArray.data.toList

/-- The text that a byte string encodes, when it is valid UTF-8. -/
def text? (b : Bytes) : Option String := String.fromUTF8? b.toByteArray

theorem toByteArray_ofText (s : String) : (ofText s).toByteArray = s.toByteArray := by
  apply ByteArray.ext
  simp [ofText, List.data_toByteArray]

@[simp] theorem text?_ofText (s : String) : text? (ofText s) = some s := by
  unfold text? String.fromUTF8?
  rw [dif_pos (by rw [toByteArray_ofText]; exact s.isValidUTF8)]
  simp [String.fromUTF8, toByteArray_ofText]

theorem text?_eq_some_iff {b : Bytes} {s : String} : text? b = some s ↔ b = ofText s := by
  refine ⟨fun h => ?_, fun h => h ▸ text?_ofText s⟩
  unfold text? String.fromUTF8? at h
  split at h
  · have e := Option.some.inj h
    simp [← e, String.fromUTF8, ofText, List.data_toByteArray]
  · contradiction

theorem ofText_inj {s t : String} : ofText s = ofText t ↔ s = t := by
  refine ⟨fun h => ?_, fun h => h ▸ rfl⟩
  have := text?_ofText s
  rw [h, text?_ofText] at this
  exact (Option.some.inj this).symm

theorem ofText_append (s t : String) : ofText (s ++ t) = ofText s ++ ofText t := by
  simp [ofText, String.toByteArray_append]

/-! ### Hexadecimal digits -/

/-- The lower-case hexadecimal digit of a number below sixteen. -/
def hexDigit (n : Nat) : UInt8 := (if n < 10 then 48 + n else 87 + n).toUInt8

/-- Two lower-case hexadecimal digits for each byte, the high half first. -/
def hex (b : Bytes) : Bytes :=
  b.flatMap fun x => [hexDigit (x.toNat / 16), hexDigit (x.toNat % 16)]

/-- The number that an ASCII hexadecimal digit of either case stands for. -/
def hexValue? (x : UInt8) : Option Nat :=
  if 48 ≤ x ∧ x ≤ 57 then some (x.toNat - 48)
  else if 97 ≤ x ∧ x ≤ 102 then some (x.toNat - 87)
  else if 65 ≤ x ∧ x ≤ 70 then some (x.toNat - 55)
  else none

/-- The text made of ASCII bytes, one character a byte. -/
def asciiText (b : Bytes) : String := String.ofList (b.map fun x => Char.ofNat x.toNat)

def hexText (b : Bytes) : String := asciiText (hex b)

theorem length_hex (b : Bytes) : (hex b).length = 2 * b.length := by
  induction b with
  | nil => rfl
  | cons x b ih =>
    rw [hex, List.flatMap_cons, List.length_append, ← hex, ih]
    exact Nat.add_comm 2 _

@[simp] theorem length_hexText (b : Bytes) : (hexText b).length = 2 * b.length := by
  rw [hexText, asciiText, String.length_ofList, List.length_map, length_hex]

/-- The little-endian bytes of a number in a field of `width` bytes. -/
def littleEndian : (width : Nat) → Nat → Bytes
  | 0, _ => []
  | width + 1, n => n.toUInt8 :: littleEndian width (n / 256)

/-- The number that little-endian bytes stand for. -/
def ofLittleEndian (b : Bytes) : Nat := b.foldr (fun x n => x.toNat + 256 * n) 0

@[simp] theorem length_littleEndian (width n : Nat) : (littleEndian width n).length = width := by
  induction width generalizing n with
  | zero => rfl
  | succ w ih => simp [littleEndian, ih]

theorem ofLittleEndian_littleEndian (width n : Nat) (h : n < Nat.pow 256 width) :
    ofLittleEndian (littleEndian width n) = n := by
  induction width generalizing n with
  | zero => simp at h; simp [littleEndian, ofLittleEndian, h]
  | succ w ih =>
    have hn : n / 256 < Nat.pow 256 w :=
      Nat.div_lt_of_lt_mul (Nat.lt_of_lt_of_eq h (Nat.mul_comm _ _))
    have := ih (n / 256) hn
    unfold ofLittleEndian at this ⊢
    rw [littleEndian, List.foldr_cons, this]
    have : n.toUInt8.toNat = n % 256 := by simp [Nat.toUInt8]
    omega

end Bytes

end AuthVault
