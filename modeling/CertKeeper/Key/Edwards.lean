import CertKeeper.Key.Modular
import CertKeeper.Key.Sha512

/-!
# The Edwards curve of Ed25519

The curve `-x² + y² = 1 + d x² y²` over the field with `2 ^ 255 - 19` elements. A `Point`
stands for `(x / z, y / z)` with `t = x y / z`. `Edwards.publicOctets` gives the public
key of a seed.
-/

namespace CertKeeper.Edwards

/-- The prime of the field. -/
def p : Nat := Nat.pow 2 255 - 19

/-- The coefficient of the curve. -/
def d : Nat := Modular.sub p 0 (121665 * Modular.inverse p 121666 % p)

/-- A point in extended coordinates. -/
structure Point where
  x : Nat
  y : Nat
  z : Nat
  t : Nat

/-- The neutral element. -/
def zero : Point := ⟨0, 1, 1, 0⟩

/-- The generator. -/
def generator : Point :=
  let x := 0x216936d3cd6e53fec0a4e231fdd6dc5c692cc7609525a7b2c9562d608f25d51a
  let y := 0x6666666666666666666666666666666666666666666666666666666666666658
  ⟨x, y, 1, x * y % p⟩

/-- The sum of two points. -/
def add (a b : Point) : Point :=
  let aa := Modular.sub p a.y a.x * Modular.sub p b.y b.x % p
  let bb := (a.y + a.x) * (b.y + b.x) % p
  let cc := 2 * a.t * b.t % p * d % p
  let dd := 2 * a.z * b.z % p
  let e := Modular.sub p bb aa
  let f := Modular.sub p dd cc
  let g := (dd + cc) % p
  let h := (bb + aa) % p
  ⟨e * f % p, g * h % p, f * g % p, e * h % p⟩

/-- The multiple of the generator. -/
def multiple (n : Nat) : Point :=
  (Modular.bits 255 n).foldl
    (fun acc bit => let twice := add acc acc; if bit then add twice generator else twice) zero

/-- The octets of a point: its second coordinate, lowest octet first, and the lowest bit
of the first one. -/
def octets (a : Point) : Octets :=
  let inverse := Modular.inverse p a.z
  let x := a.x * inverse % p
  let y := a.y * inverse % p
  (Octets.ofNat 32 (y + x % 2 * Nat.pow 2 255)).reverse

/-- The number of a seed: the first half of its hash, with some bits fixed. -/
def number (seed : Octets) : Nat :=
  let n := Octets.toNat ((Sha512.hash seed).take 32).reverse
  n % Nat.pow 2 254 / 8 * 8 + Nat.pow 2 254

/-- The octets of the public key of a seed. -/
def publicOctets (seed : Octets) : Octets := octets (multiple (number seed))

end CertKeeper.Edwards
