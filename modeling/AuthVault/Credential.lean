import AuthVault.Sha256

/-!
# Credentials

Salted password digests and the tokens minted from them. A salt is the digest of a seed, a hash the
digest of the salt followed by the digest of the password, all in hexadecimal digits; a token is the
hash of a password under the salt of a fresh seed.
-/

namespace AuthVault

/-- What is kept of a password. -/
structure Credential where
  salt : String
  hash : String
  deriving DecidableEq

namespace Credential

def digestHex (b : Bytes) : String := Bytes.hexText (Sha256.digest b)

def deriveSalt (seed : String) : String := digestHex (Bytes.ofText seed)

/-- The bytes whose digest is the hash of a password under a salt. -/
def preimage (password salt : String) : Bytes :=
  Bytes.ofText salt ++ Bytes.ofText (digestHex (Bytes.ofText password))

def derive (password salt : String) : String := digestHex (preimage password salt)

/-- The credential of a password, salted from a seed. -/
def register (password seed : String) : Credential :=
  let salt := deriveSalt seed
  { salt := salt, hash := derive password salt }

/-- Whether a password has the hash of the credential. -/
def verify (c : Credential) (password : String) : Bool := derive password c.salt == c.hash

def issueToken (password seed : String) : String := derive password (deriveSalt seed)

@[simp] theorem length_derive (password salt : String) : (derive password salt).length = 64 := by
  rw [derive, digestHex, Bytes.length_hexText, Sha256.length_digest]

theorem issueToken_ne_empty (password seed : String) : issueToken password seed ≠ "" := by
  intro hempty
  have hlength : (issueToken password seed).length = 64 := length_derive password _
  rw [hempty] at hlength
  contradiction

theorem verify_register (password seed : String) : (register password seed).verify password = true := by
  simp [register, verify]

end Credential

end AuthVault
