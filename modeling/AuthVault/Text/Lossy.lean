import AuthVault.Bytes

/-!
# Texts from damaged bytes

A byte string that is not UTF-8 is still read as a text: every longest start of a sequence that is
not completed, and every byte that begins none, becomes one replacement character.
-/

namespace AuthVault.Text

/-- How many bytes follow the first byte of a sequence, and the range of the second one. -/
def sequence? (lead : UInt8) : Option (Nat × UInt8 × UInt8) :=
  if lead < 0x80 then some (0, 0, 0)
  else if lead < 0xc2 then none
  else if lead < 0xe0 then some (1, 0x80, 0xbf)
  else if lead = 0xe0 then some (2, 0xa0, 0xbf)
  else if lead = 0xed then some (2, 0x80, 0x9f)
  else if lead < 0xf0 then some (2, 0x80, 0xbf)
  else if lead = 0xf0 then some (3, 0x90, 0xbf)
  else if lead < 0xf4 then some (3, 0x80, 0xbf)
  else if lead = 0xf4 then some (3, 0x80, 0x8f)
  else none

/-- How many of the next `n` bytes continue a sequence, when the first one has to lie in a range. -/
def continued (low high : UInt8) : (n : Nat) → Bytes → Nat
  | 0, _ => 0
  | _ + 1, [] => 0
  | n + 1, x :: rest => if low ≤ x ∧ x ≤ high then continued 0x80 0xbf n rest + 1 else 0

def replacement : Bytes := [0xef, 0xbf, 0xbd]

/-- Valid bytes with replacement characters, behind those already made, which are in reverse. -/
def repairAfter (done : Bytes) : Bytes → Bytes
  | [] => done.reverse
  | lead :: rest =>
    match sequence? lead with
    | none => repairAfter (replacement.reverse ++ done) rest
    | some (n, low, high) =>
      let k := continued low high n rest
      if k = n then repairAfter ((lead :: rest.take n).reverse ++ done) (rest.drop n)
      else repairAfter (replacement.reverse ++ done) (rest.drop k)
termination_by b => b.length
decreasing_by all_goals simp only [List.length_cons, List.length_drop]; omega

/-- The text of a byte string, with replacement characters where it is not UTF-8. -/
def lossy (b : Bytes) : String :=
  match Bytes.text? b with
  | some s => s
  | none => (Bytes.text? (repairAfter [] b)).getD ""

end AuthVault.Text
