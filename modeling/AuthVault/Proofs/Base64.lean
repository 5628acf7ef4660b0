import AuthVault.Base64
import AuthVault.Proofs.Json.Text

/-!
# Base64 reads back

`decode?_encode`: the characters of a byte string stand for it. Each group of three bytes is read
back from its four characters (`decodeGroup?_group`), which hold no padding; the last one or two
bytes are read back from a padded group, whose spare bits are zero. The characters are plain, so
they stand between the quotes of a JSON text as they are (`plain_encode`).
-/

namespace AuthVault.Base64

/-! ### Groups -/

theorem toUInt8_toNat (a : UInt8) : a.toNat.toUInt8 = a := by simp

theorem first_eq (a : UInt8) (n : Nat) (h : n < 16) :
    (a.toNat / 4 * 4 + (a.toNat % 4 * 16 + n) / 16).toUInt8 = a := by
  rw [show a.toNat / 4 * 4 + (a.toNat % 4 * 16 + n) / 16 = a.toNat by omega, toUInt8_toNat]

theorem second_eq (a b : UInt8) (n : Nat) (h : n < 4) :
    ((a.toNat % 4 * 16 + b.toNat / 16) % 16 * 16 + (b.toNat % 16 * 4 + n) / 4).toUInt8 = b := by
  have := b.toNat_lt
  rw [show (a.toNat % 4 * 16 + b.toNat / 16) % 16 * 16 + (b.toNat % 16 * 4 + n) / 4 = b.toNat
      by omega,
    toUInt8_toNat]

theorem third_eq (b c : UInt8) :
    ((b.toNat % 16 * 4 + c.toNat / 64) % 4 * 64 + c.toNat % 64).toUInt8 = c := by
  have := c.toNat_lt
  rw [show (b.toNat % 16 * 4 + c.toNat / 64) % 4 * 64 + c.toNat % 64 = c.toNat by omega,
    toUInt8_toNat]

section Group

variable (a b c : UInt8)

/-- Four characters in the place of three bytes. -/
theorem group_values :
    value? (character (a.toNat / 4)) = some (a.toNat / 4) ∧
    value? (character (a.toNat % 4 * 16 + b.toNat / 16)) = some (a.toNat % 4 * 16 + b.toNat / 16) ∧
    value? (character (b.toNat % 16 * 4 + c.toNat / 64)) = some (b.toNat % 16 * 4 + c.toNat / 64) ∧
    value? (character (c.toNat % 64)) = some (c.toNat % 64) := by
  have := a.toNat_lt
  have := b.toNat_lt
  have := c.toNat_lt
  refine ⟨?_, ?_, ?_, ?_⟩ <;> exact value?_character (by omega)

theorem decodeGroup?_group :
    decodeGroup? (character (a.toNat / 4)) (character (a.toNat % 4 * 16 + b.toNat / 16))
      (character (b.toNat % 16 * 4 + c.toNat / 64)) (character (c.toNat % 64))
        = some [a, b, c] := by
  obtain ⟨h1, h2, h3, h4⟩ := group_values a b c
  have := b.toNat_lt
  have := c.toNat_lt
  simp only [decodeGroup?, h1, h2, h3, h4, Option.bind_eq_bind, Option.bind_some]
  rw [first_eq a _ (by omega), second_eq a b _ (by omega), third_eq b c]

theorem decodeLast?_group :
    decodeLast? (character (a.toNat / 4)) (character (a.toNat % 4 * 16 + b.toNat / 16))
      (character (b.toNat % 16 * 4 + c.toNat / 64)) (character (c.toNat % 64))
        = some [a, b, c] := by
  obtain ⟨h1, h2, h3, h4⟩ := group_values a b c
  have := b.toNat_lt
  have := c.toNat_lt
  have hthird : character (b.toNat % 16 * 4 + c.toNat / 64) ≠ padding :=
    character_ne_padding (by omega)
  have hfourth : character (c.toNat % 64) ≠ padding := character_ne_padding (by omega)
  simp only [decodeLast?, h1, h2, h3, h4, Option.bind_eq_bind, Option.bind_some, if_neg hthird,
    if_neg hfourth]
  rw [first_eq a _ (by omega), second_eq a b _ (by omega), third_eq b c]

theorem decodeLast?_groupOfTwo :
    decodeLast? (character (a.toNat / 4)) (character (a.toNat % 4 * 16 + b.toNat / 16))
      (character (b.toNat % 16 * 4)) padding = some [a, b] := by
  obtain ⟨h1, h2, -, -⟩ := group_values a b 0
  have := b.toNat_lt
  have h3 : value? (character (b.toNat % 16 * 4)) = some (b.toNat % 16 * 4) :=
    value?_character (by omega)
  have hthird : character (b.toNat % 16 * 4) ≠ padding := character_ne_padding (by omega)
  simp only [decodeLast?, h1, h2, h3, Option.bind_eq_bind, Option.bind_some, if_neg hthird, if_true,
    if_pos (Nat.mul_mod_left (b.toNat % 16) 4)]
  rw [first_eq a _ (by omega)]
  have h := second_eq a b 0 (by omega)
  rw [Nat.add_zero] at h
  rw [h]

theorem decodeLast?_groupOfOne :
    decodeLast? (character (a.toNat / 4)) (character (a.toNat % 4 * 16)) padding padding
      = some [a] := by
  obtain ⟨h1, -, -, -⟩ := group_values a 0 0
  have h2 : value? (character (a.toNat % 4 * 16)) = some (a.toNat % 4 * 16) :=
    value?_character (by omega)
  simp only [decodeLast?, h1, h2, Option.bind_eq_bind, Option.bind_some, if_true, true_and,
    if_pos (Nat.mul_mod_left (a.toNat % 4) 16)]
  have h := first_eq a 0 (by omega)
  rw [Nat.add_zero] at h
  rw [h]

end Group

/-! ### Byte strings -/

theorem encodeAfter_eq : ∀ (done b : Bytes), encodeAfter done b = done.reverse ++ encode b
  | done, [] => by simp [encode, encodeAfter]
  | done, [a] => by simp [encode, encodeAfter]
  | done, [a, b] => by simp [encode, encodeAfter]
  | done, a :: b :: c :: rest => by
    rw [encode, encodeAfter, encodeAfter, encodeAfter_eq _ rest, encodeAfter_eq _ rest]
    simp

theorem encode_cons (a b c : UInt8) (rest : Bytes) :
    encode (a :: b :: c :: rest) = group a b c ++ encode rest := by
  rw [encode, encodeAfter, encodeAfter_eq]
  simp

/-- A group of four is read the same way in front of others and at the end. -/
theorem decodeAfter?_group (done rest : Bytes) (a b c : UInt8) :
    decodeAfter? done (group a b c ++ rest) = decodeAfter? (c :: b :: a :: done) rest := by
  cases rest with
  | nil => simp [group, decodeAfter?, decodeLast?_group]
  | cons p rest => simp [group, decodeAfter?, decodeGroup?_group]

theorem decodeAfter?_encode : ∀ (b done : Bytes),
    decodeAfter? done (encode b) = some (done.reverse ++ b)
  | [], done => by simp [encode, encodeAfter, decodeAfter?]
  | [a], done => by simp [encode, encodeAfter, groupOfOne, decodeAfter?, decodeLast?_groupOfOne]
  | [a, b], done => by simp [encode, encodeAfter, groupOfTwo, decodeAfter?, decodeLast?_groupOfTwo]
  | a :: b :: c :: rest, done => by
    rw [encode_cons, decodeAfter?_group, decodeAfter?_encode rest]
    simp

theorem decode?_encode (b : Bytes) : decode? (encode b) = some b := decodeAfter?_encode b []

/-! ### Characters -/

theorem plain_character {n : Nat} (h : n < 64) :
    character n < 128 ∧ Json.escapeByte (character n) = [character n] := by
  have all : ∀ n : Fin 64, character n < 128 ∧ Json.escapeByte (character n) = [character n] := by
    decide
  exact all ⟨n, h⟩

theorem plain_encode : ∀ b : Bytes, Json.Plain (encode b)
  | [] => by simp [encode, encodeAfter, Json.Plain]
  | [a] => by
    have := a.toNat_lt
    simp only [encode, encodeAfter, groupOfOne, List.reverse_nil, List.nil_append, Json.Plain,
      List.forall_mem_cons]
    exact ⟨plain_character (by omega), plain_character (by omega), by decide, by decide, by simp⟩
  | [a, b] => by
    have := a.toNat_lt
    have := b.toNat_lt
    simp only [encode, encodeAfter, groupOfTwo, List.reverse_nil, List.nil_append, Json.Plain,
      List.forall_mem_cons]
    exact ⟨plain_character (by omega), plain_character (by omega), plain_character (by omega),
      by decide, by simp⟩
  | a :: b :: c :: rest => by
    have := a.toNat_lt
    have := b.toNat_lt
    have := c.toNat_lt
    rw [encode_cons]
    intro x hx
    rcases List.mem_append.1 hx with hx | hx
    · simp only [group, List.mem_cons, List.not_mem_nil, or_false] at hx
      rcases hx with rfl | rfl | rfl | rfl <;> exact plain_character (by omega)
    · exact plain_encode rest x hx

end AuthVault.Base64
