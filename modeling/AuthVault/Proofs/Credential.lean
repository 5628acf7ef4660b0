import AuthVault.Credential
import AuthVault.Proofs.Json.Text
import AuthVault.Proofs.Time.Stamp

/-!
# What a hash binds

A hash is three digests deep: the digest of a salt, itself the digest of a seed, followed by the
digest of a password. Two hashes that agree are unfolded layer by layer: at each layer either the
digested byte strings are the same, or they are a collision that can be named (`binds_derive`).
Nothing is lost between the layers. Hexadecimal digits determine the bytes that they spell
(`hexText_injective`), and a salt has a fixed length, so that what is digested last splits in one way
only into salt and password digest (`preimage_inj`).

What is sealed with a seed is sealed with an instant, since no two instants are written as the same
seed; so a password other than the registered one is accepted, and a token issued twice, only where
a collision is at hand.
-/

namespace AuthVault

/-! ### Hexadecimal digits -/

namespace Bytes

theorem hexDigit_inj {m n : Nat} (hm : m < 16) (hn : n < 16) : hexDigit m = hexDigit n ↔ m = n := by
  refine ⟨fun h => ?_, fun h => h ▸ rfl⟩
  have hvalue := Json.hexValue?_hexDigit hm
  rw [h, Json.hexValue?_hexDigit hn] at hvalue
  exact (Option.some.inj hvalue).symm

theorem hexDigit_lt {n : Nat} (h : n < 16) : hexDigit n < 128 := by
  have all : ∀ n : Fin 16, hexDigit n < 128 := by decide
  exact all ⟨n, h⟩

theorem hex_cons (x : UInt8) (b : Bytes) :
    hex (x :: b) = hexDigit (x.toNat / 16) :: hexDigit (x.toNat % 16) :: hex b := rfl

theorem hex_injective : Function.Injective hex := by
  intro a
  induction a with
  | nil =>
    intro b h
    cases b with
    | nil => rfl
    | cons y b => nomatch h
  | cons x a ih =>
    intro b h
    cases b with
    | nil => nomatch h
    | cons y b =>
      rw [hex_cons, hex_cons] at h
      obtain ⟨hhigh, htail⟩ := List.cons.inj h
      obtain ⟨hlow, hrest⟩ := List.cons.inj htail
      have hx := x.toNat_lt
      have hy := y.toNat_lt
      rw [hexDigit_inj (by omega) (by omega)] at hhigh hlow
      have hxy : x.toNat = y.toNat := by omega
      rw [UInt8.toNat_inj.1 hxy, ih hrest]

theorem lt_of_mem_hex {b : Bytes} {d : UInt8} (h : d ∈ hex b) : d < 128 := by
  obtain ⟨x, -, hd⟩ := List.mem_flatMap.1 h
  have hx := x.toNat_lt
  rw [List.mem_cons, List.mem_singleton] at hd
  rcases hd with rfl | rfl
  · exact hexDigit_lt (by omega)
  · exact hexDigit_lt (by omega)

theorem ofText_hexText (b : Bytes) : ofText (hexText b) = hex b :=
  Json.ofText_asciiText fun _ h => lt_of_mem_hex h

theorem hexText_injective : Function.Injective hexText := by
  intro a b h
  apply hex_injective
  rw [← ofText_hexText a, h, ofText_hexText]

end Bytes

/-! ### Collisions -/

/-- Two byte strings that differ and have one digest. -/
def Sha256.Collision (a b : Bytes) : Prop := a ≠ b ∧ digest a = digest b

namespace Credential

open Bytes (ofText)
open Sha256 (Collision)

theorem eq_or_collision {a b : Bytes} (h : digestHex a = digestHex b) : a = b ∨ Collision a b := by
  have hdigest : Sha256.digest a = Sha256.digest b := Bytes.hexText_injective h
  by_cases heq : a = b
  · exact .inl heq
  · exact .inr ⟨heq, hdigest⟩

/-- A seed, like a password, is digested as a text. -/
theorem text_eq_or_collision {s t : String} (h : digestHex (ofText s) = digestHex (ofText t)) :
    s = t ∨ Collision (ofText s) (ofText t) :=
  (eq_or_collision h).imp_left Bytes.ofText_inj.1

@[simp] theorem length_ofText_digestHex (b : Bytes) : (ofText (digestHex b)).length = 64 := by
  rw [digestHex, Bytes.ofText_hexText, Bytes.length_hex, Sha256.length_digest]

theorem length_ofText_deriveSalt (seed : String) : (ofText (deriveSalt seed)).length = 64 :=
  length_ofText_digestHex _

/-- Salts of one length end at the same place, whatever they are salts of. -/
theorem preimage_inj {p q salt salt' : String}
    (hlength : (ofText salt).length = (ofText salt').length) :
    preimage p salt = preimage q salt' ↔
      salt = salt' ∧ digestHex (ofText p) = digestHex (ofText q) := by
  rw [preimage, preimage, List.append_eq_append_iff_of_size_eq_left hlength, Bytes.ofText_inj,
    Bytes.ofText_inj]

/-! ### The layers of a hash -/

/-- The last layer: one hash under two salts of the same length. -/
theorem salts_eq_or_collision {p q salt salt' : String}
    (hlength : (ofText salt).length = (ofText salt').length) (h : derive p salt = derive q salt') :
    (salt = salt' ∧ (p = q ∨ Collision (ofText p) (ofText q))) ∨
      Collision (preimage p salt) (preimage q salt') := by
  rcases eq_or_collision h with heq | hcollision
  · obtain ⟨hsalt, hpassword⟩ := (preimage_inj hlength).1 heq
    exact .inl ⟨hsalt, text_eq_or_collision hpassword⟩
  · exact .inr hcollision

/-- The collisions that may stand behind one hash of two passwords, each under the salt of a seed. -/
def Colliding (p s q t : String) : Prop :=
  Collision (ofText s) (ofText t) ∨ Collision (ofText p) (ofText q) ∨
    Collision (preimage p (deriveSalt s)) (preimage q (deriveSalt t))

theorem binds_derive {p s q t : String} (h : derive p (deriveSalt s) = derive q (deriveSalt t)) :
    (p = q ∧ s = t) ∨ Colliding p s q t := by
  have hlength : (ofText (deriveSalt s)).length = (ofText (deriveSalt t)).length := by
    rw [length_ofText_deriveSalt, length_ofText_deriveSalt]
  rcases salts_eq_or_collision hlength h with ⟨hsalt, hpassword⟩ | hcollision
  · rcases text_eq_or_collision hsalt with hseed | hcollision
    · rcases hpassword with hpassword | hcollision
      · exact .inl ⟨hpassword, hseed⟩
      · exact .inr (.inr (.inl hcollision))
    · exact .inr (.inl hcollision)
  · exact .inr (.inr (.inr hcollision))

/-- Under one salt, of whatever length, only the passwords are left to collide. -/
theorem binds_verify {p q seed : String} (h : (register p seed).verify q = true) :
    q = p ∨ Collision (ofText q) (ofText p) ∨
      Collision (preimage q (deriveSalt seed)) (preimage p (deriveSalt seed)) := by
  have hhash : derive q (deriveSalt seed) = derive p (deriveSalt seed) := eq_of_beq h
  rcases salts_eq_or_collision rfl hhash with ⟨-, hpassword⟩ | hcollision
  · exact hpassword.imp_right .inl
  · exact .inr (.inr hcollision)

theorem binds_issueToken {p q : String} {t u : Instant}
    (h : issueToken p t.seed = issueToken q u.seed) :
    (p = q ∧ t = u) ∨ Colliding p t.seed q u.seed := by
  rcases binds_derive h with ⟨hpassword, hseed⟩ | hcolliding
  · exact .inl ⟨hpassword, Instant.seed_injective hseed⟩
  · exact .inr hcolliding

/-- A hash stands for one password and one seed, a registered password is the only one accepted and
a token is issued once, unless two byte strings at hand collide. -/
theorem unique_or_collision :
    (∀ p s q t, derive p (deriveSalt s) = derive q (deriveSalt t) →
      (p = q ∧ s = t) ∨ Colliding p s q t) ∧
    (∀ t u : Instant, t ≠ u → t.seed ≠ u.seed) ∧
    (∀ p q seed, (register p seed).verify q = true → q ≠ p →
      Collision (ofText q) (ofText p) ∨
        Collision (preimage q (deriveSalt seed)) (preimage p (deriveSalt seed))) ∧
    (∀ p q (t u : Instant), issueToken p t.seed = issueToken q u.seed → t ≠ u ∨ p ≠ q →
      Colliding p t.seed q u.seed) := by
  refine ⟨fun p s q t => binds_derive, fun t u hne hseed => hne (Instant.seed_injective hseed),
    fun p q seed haccepted hne => ?_, fun p q t u hkey hne => ?_⟩
  · exact (binds_verify haccepted).resolve_left hne
  · refine (binds_issueToken hkey).resolve_left fun ⟨hpassword, hinstant⟩ => ?_
    exact hne.elim (fun h => h hinstant) fun h => h hpassword

end Credential

end AuthVault
