/-!
# Arithmetic modulo a number

Differences, powers and inverses of residues, and the bits of exponents.
-/

namespace CertKeeper.Modular

/-- The bits of a number below `2 ^ width`, the highest first. -/
def bits : (width : Nat) → Nat → List Bool
  | 0, _ => []
  | width + 1, n => n.testBit width :: bits width n

/-- The difference of two residues. -/
def sub (p a b : Nat) : Nat := (a + p - b) % p

/-- The power of a residue. -/
def pow (p base exponent : Nat) : Nat :=
  (bits (exponent.log2 + 1) exponent).foldl
    (fun acc bit => let square := acc * acc % p; if bit then square * base % p else square) 1

/-- The inverse of a residue modulo a prime. -/
def inverse (p a : Nat) : Nat := pow p a (p - 2)

end CertKeeper.Modular
