import AuthVault.Json.Reader
import Mathlib.Tactic.SplitIfs

/-!
# Written texts are read back

`readText_textBefore`: a text written between quotes in front of anything is read back, and what
follows it is left. Two facts carry it. An escaped byte is one round of the string reader, whatever
stands in front of it and behind it (`stringBytes_escapeByte`); so the bytes of a text pass one by
one to the closing quote (`stringBytes_foldr_escapeByte`). The bytes are then the UTF-8 encoding of
the text, and of no other.

A byte string of plain ASCII characters is written as it stands (`renderText_asciiText`), which is
how digits and Base64 get between quotes.
-/

namespace AuthVault.Json

/-! ### Readers, one step at a time -/

section Readers

variable {α β : Type}

theorem bind_ok {x : Reader α} {f : α → Reader β} {b b' : Bytes} {a : α} (h : x b = .ok (a, b')) :
    (x >>= f) b = f a b' := by
  show (x b >>= fun p => f p.1 p.2) = _
  rw [h]
  rfl

theorem skipSpace_cons {c : UInt8} (h : isSpace c = false) (rest : Bytes) :
    skipSpace (c :: rest) = c :: rest := by
  rw [skipSpace, List.dropWhile_cons, h]
  rfl

theorem peek_cons {c : UInt8} (h : isSpace c = false) (rest : Bytes) :
    peek (c :: rest) = .ok (some c, c :: rest) := by
  rw [peek, skipSpace_cons h]
  rfl

theorem eat_cons (c : UInt8) (rest : Bytes) : eat (c :: rest) = .ok ((), rest) := rfl

theorem colon_cons (rest : Bytes) : colon (58 :: rest) = .ok ((), rest) := by
  rw [colon, bind_ok (peek_cons (by decide) rest)]
  rfl

end Readers

/-! ### Strings -/

theorem hexValue?_hexDigit {n : Nat} (h : n < 16) :
    Bytes.hexValue? (Bytes.hexDigit n) = some n := by
  have all : ∀ n : Fin 16, Bytes.hexValue? (Bytes.hexDigit n) = some n.val := by decide
  exact all ⟨n, h⟩

theorem utf8EncodeChar_ofNat {n : Nat} (h : n < 128) :
    String.utf8EncodeChar (Char.ofNat n) = [n.toUInt8] := by
  have all : ∀ n : Fin 128, String.utf8EncodeChar (Char.ofNat n) = [n.val.toUInt8] := by decide
  exact all ⟨n, h⟩

theorem escaped_short {c x : UInt8} (h : shortEscape? c = some x) (rest : Bytes) :
    escaped (c :: rest) = .ok ([x], rest) := by
  simp only [escaped, h]

theorem escaped_control {b : UInt8} (h : b < 32) (rest : Bytes) :
    escaped (117 :: 48 :: 48 :: Bytes.hexDigit (b.toNat / 16) ::
        Bytes.hexDigit (b.toNat % 16) :: rest)
      = .ok ([b], rest) := by
  have hb : b.toNat < 32 := by simpa [UInt8.lt_iff_toNat_lt] using h
  have hhigh := hexValue?_hexDigit (n := b.toNat / 16) (by omega)
  have hlow := hexValue?_hexDigit (n := b.toNat % 16) (by omega)
  have hzero : Bytes.hexValue? 48 = some 0 := by decide
  have hunit : ((0 * 16 + 0) * 16 + b.toNat / 16) * 16 + b.toNat % 16 = b.toNat := by omega
  have hshort : shortEscape? 117 = none := by decide
  simp only [escaped, hshort, if_true, unicodeEscape, hexEscape, hzero, hhigh, hlow, hunit]
  rw [if_neg (by omega), if_neg (by omega), utf8EncodeChar_ofNat (by omega)]
  simp

theorem stringBytes_backslash {done bytes : Bytes} {rest rest' : Bytes}
    (h : escaped rest = .ok (bytes, rest')) :
    stringBytes done (92 :: rest) = stringBytes (bytes.reverse ++ done) rest' := by
  rw [stringBytes, if_neg (by decide), if_pos rfl]
  split
  · next e he => rw [h] at he; contradiction
  · next he =>
    rw [h] at he
    simp only [Except.ok.injEq, Prod.mk.injEq] at he
    rw [he.1, he.2]

theorem stringBytes_plain {b : UInt8} (hquote : b ≠ 34) (hbackslash : b ≠ 92) (hcontrol : ¬ b < 32)
    (done rest : Bytes) : stringBytes done (b :: rest) = stringBytes (b :: done) rest := by
  rw [stringBytes, if_neg hquote, if_neg hbackslash, if_neg hcontrol]

/-- A byte is written as a backslash and a letter, as a code point, or as it stands. -/
theorem escapeByte_cases (b : UInt8) :
    (∃ c, escapeByte b = [92, c] ∧ shortEscape? c = some b) ∨
    (b < 32 ∧ escapeByte b =
      [92, 117, 48, 48, Bytes.hexDigit (b.toNat / 16), Bytes.hexDigit (b.toNat % 16)]) ∨
    (b ≠ 34 ∧ b ≠ 92 ∧ ¬ b < 32 ∧ escapeByte b = [b]) := by
  unfold escapeByte
  split_ifs with h34 h92 h8 h9 h10 h12 h13 hcontrol
  iterate 7 exact .inl ⟨_, rfl, by subst b; decide⟩
  · exact .inr (.inl ⟨hcontrol, rfl⟩)
  · exact .inr (.inr ⟨h34, h92, hcontrol, rfl⟩)

/-- An escaped byte is one round of the string reader. -/
theorem stringBytes_escapeByte (b : UInt8) (done rest : Bytes) :
    stringBytes done (escapeByte b ++ rest) = stringBytes (b :: done) rest := by
  rcases escapeByte_cases b with ⟨c, hb, hc⟩ | ⟨hcontrol, hb⟩ | ⟨hquote, hbackslash, hcontrol, hb⟩
  · rw [hb]
    exact stringBytes_backslash (escaped_short hc rest)
  · rw [hb]
    exact stringBytes_backslash (escaped_control hcontrol rest)
  · rw [hb]
    exact stringBytes_plain hquote hbackslash hcontrol done rest

theorem stringBytes_foldr_escapeByte (bytes done rest : Bytes) :
    stringBytes done (bytes.foldr (fun b rest => escapeByte b ++ rest) (34 :: rest))
      = .ok (done.reverse ++ bytes, rest) := by
  induction bytes generalizing done with
  | nil => rw [List.foldr_nil, stringBytes, if_pos rfl, List.append_nil]
  | cons b bytes ih => rw [List.foldr_cons, stringBytes_escapeByte, ih]; simp

theorem stringText_foldr_escapeByte (s : String) (rest : Bytes) :
    stringText ((Bytes.ofText s).foldr (fun b rest => escapeByte b ++ rest) (34 :: rest))
      = .ok (s, rest) := by
  simp only [stringText, stringBytes_foldr_escapeByte, List.reverse_nil, List.nil_append,
    Bytes.text?_ofText]

/-- A written text is read back. -/
theorem readText_textBefore (s : String) (rest : Bytes) :
    readText (textBefore rest s) = .ok (s, rest) := by
  rw [textBefore, readText, bind_ok (peek_cons (by decide) _)]
  exact stringText_foldr_escapeByte s rest

/-! ### What follows a written text -/

theorem foldr_escapeByte_append (bytes rest more : Bytes) :
    bytes.foldr (fun b rest => escapeByte b ++ rest) rest ++ more
      = bytes.foldr (fun b rest => escapeByte b ++ rest) (rest ++ more) := by
  induction bytes with
  | nil => rfl
  | cons b bytes ih => simp only [List.foldr_cons, List.append_assoc, ih]

theorem textBefore_append (s : String) (rest more : Bytes) :
    textBefore rest s ++ more = textBefore (rest ++ more) s := by
  simp only [textBefore, List.cons_append, foldr_escapeByte_append]

theorem readText_renderText (s : String) (rest : Bytes) :
    readText (renderText s ++ rest) = .ok (s, rest) := by
  rw [renderText, textBefore_append]
  exact readText_textBefore s rest

/-! ### Plain characters -/

/-- Bytes that are ASCII characters and stand for themselves between quotes. -/
def Plain (bytes : Bytes) : Prop := ∀ b ∈ bytes, b < 128 ∧ escapeByte b = [b]

theorem flatMap_utf8EncodeChar {bytes : Bytes} (h : ∀ b ∈ bytes, b < 128) :
    (bytes.map fun x => Char.ofNat x.toNat).flatMap String.utf8EncodeChar = bytes := by
  induction bytes with
  | nil => rfl
  | cons b bytes ih =>
    have hb : b.toNat < 128 := by simpa [UInt8.lt_iff_toNat_lt] using h b (List.mem_cons_self ..)
    rw [List.map_cons, List.flatMap_cons, utf8EncodeChar_ofNat hb,
      ih fun x hx => h x (List.mem_cons_of_mem _ hx)]
    simp

theorem ofText_asciiText {bytes : Bytes} (h : ∀ b ∈ bytes, b < 128) :
    Bytes.ofText (Bytes.asciiText bytes) = bytes := by
  rw [Bytes.ofText, Bytes.asciiText, String.toByteArray_ofList, List.utf8Encode,
    List.data_toByteArray, flatMap_utf8EncodeChar h]

theorem foldr_escapeByte_of_plain {bytes : Bytes} (h : Plain bytes) (rest : Bytes) :
    bytes.foldr (fun b rest => escapeByte b ++ rest) rest = bytes ++ rest := by
  induction bytes with
  | nil => rfl
  | cons b bytes ih =>
    rw [List.foldr_cons, (h b (List.mem_cons_self ..)).2,
      ih fun x hx => h x (List.mem_cons_of_mem _ hx)]
    rfl

theorem renderText_asciiText {bytes : Bytes} (h : Plain bytes) :
    renderText (Bytes.asciiText bytes) = 34 :: bytes ++ [34] := by
  rw [renderText, textBefore, ofText_asciiText fun b hb => (h b hb).1, foldr_escapeByte_of_plain h]
  rfl

end AuthVault.Json
