import AuthVault.Http.Percent
import AuthVault.Proofs.Json.Text

/-!
# Percent encodings are read back

A byte string may be percent-encoded in many ways: any byte may be written as an escape, with digits
of either case, and a byte that is not reserved may also stand as it is. `Encodes` relates a byte
string to all of them. Each is read back (`Encodes.decode_eq`), and a reserved byte occurs in none, so
that it can separate one from the next (`Encodes.not_mem`). What `encode` writes is one of them, where
letters and digits are not reserved (`encodes_encode`).
-/

namespace AuthVault.Http.Percent

/-- A byte string in percent encoding: a byte that is neither a percent sign nor reserved may stand
as it is. -/
inductive Encodes (reserved : Bytes) : (raw encoded : Bytes) → Prop
  | nil : Encodes reserved [] []
  | bare {b : UInt8} {raw encoded : Bytes} (hpercent : b ≠ 37) (hreserved : b ∉ reserved)
      (h : Encodes reserved raw encoded) : Encodes reserved (b :: raw) (b :: encoded)
  | escape {x y : UInt8} {high low : Nat} {raw encoded : Bytes}
      (hhigh : Bytes.hexValue? x = some high) (hlow : Bytes.hexValue? y = some low)
      (h : Encodes reserved raw encoded) :
      Encodes reserved ((16 * high + low).toUInt8 :: raw) (37 :: x :: y :: encoded)

/-! ### Decoding -/

theorem decodeAfter_bare {b : UInt8} (h : b ≠ 37) (done rest : Bytes) :
    decodeAfter done (b :: rest) = decodeAfter (b :: done) rest := by
  match rest with
  | [] => rfl
  | [_] => rfl
  | _ :: _ :: _ => rw [decodeAfter, if_neg h]

theorem decodeAfter_escape {x y : UInt8} {high low : Nat} (hhigh : Bytes.hexValue? x = some high)
    (hlow : Bytes.hexValue? y = some low) (done rest : Bytes) :
    decodeAfter done (37 :: x :: y :: rest)
      = decodeAfter ((16 * high + low).toUInt8 :: done) rest := by
  rw [decodeAfter, if_pos rfl]
  simp only [hhigh, hlow]

section Encodings

variable {reserved raw encoded : Bytes}

theorem Encodes.decodeAfter_eq (h : Encodes reserved raw encoded) (done : Bytes) :
    decodeAfter done encoded = done.reverse ++ raw := by
  induction h generalizing done with
  | nil => rw [decodeAfter, List.append_nil]
  | bare hpercent _ _ ih =>
    rw [decodeAfter_bare hpercent, ih, List.reverse_cons, List.append_assoc, List.singleton_append]
  | escape hhigh hlow _ ih =>
    rw [decodeAfter_escape hhigh hlow, ih, List.reverse_cons, List.append_assoc,
      List.singleton_append]

/-- Every encoding of a byte string is decoded to it. -/
theorem Encodes.decode_eq (h : Encodes reserved raw encoded) : decode encoded = raw :=
  h.decodeAfter_eq []

/-! ### The bytes of an encoding -/

/-- A reserved byte is always escaped; it must not be one of those that escapes are made of. -/
theorem Encodes.not_mem (h : Encodes reserved raw encoded) {b : UInt8}
    (hb : b ∈ reserved ∧ b ≠ 37 ∧ Bytes.hexValue? b = none) : b ∉ encoded := by
  obtain ⟨hreserved, hpercent, hhex⟩ := hb
  induction h with
  | nil => exact List.not_mem_nil
  | bare _ hbare _ ih =>
    rw [List.mem_cons, not_or]
    exact ⟨fun heq => hbare (heq ▸ hreserved), ih⟩
  | @escape x y high low raw encoded hhigh hlow _ ih =>
    have hx : b ≠ x := by
      rintro rfl
      rw [hhex] at hhigh
      contradiction
    have hy : b ≠ y := by
      rintro rfl
      rw [hhex] at hlow
      contradiction
    simp only [List.mem_cons, not_or]
    exact ⟨hpercent, hx, hy, ih⟩

theorem Encodes.ne_nil (h : Encodes reserved raw encoded) (hraw : raw ≠ []) : encoded ≠ [] := by
  cases h with
  | nil => contradiction
  | bare => exact List.cons_ne_nil _ _
  | escape => exact List.cons_ne_nil _ _

end Encodings

/-- What is written is an encoding. -/
theorem encodes_encode {reserved : Bytes} (h : ∀ b ∈ reserved, isPlain b = false) (raw : Bytes) :
    Encodes reserved raw (encode raw) := by
  induction raw with
  | nil => exact .nil
  | cons b raw ih =>
    rw [encode, List.flatMap_cons, ← encode, encodeByte]
    by_cases hplain : isPlain b = true
    · rw [if_pos hplain]
      refine .bare ?_ (fun hb => ?_) ih
      · rintro rfl
        contradiction
      · rw [h b hb] at hplain
        contradiction
    · rw [if_neg hplain]
      have hlt := b.toNat_lt
      have hbyte : (16 * (b.toNat / 16) + b.toNat % 16).toUInt8 = b := by
        rw [show 16 * (b.toNat / 16) + b.toNat % 16 = b.toNat by omega]
        simp
      have hescape : Encodes reserved ((16 * (b.toNat / 16) + b.toNat % 16).toUInt8 :: raw)
          (37 :: Bytes.hexDigit (b.toNat / 16) :: Bytes.hexDigit (b.toNat % 16) :: encode raw) :=
        .escape (Json.hexValue?_hexDigit (by omega)) (Json.hexValue?_hexDigit (by omega)) ih
      rw [hbyte] at hescape
      exact hescape

end AuthVault.Http.Percent
