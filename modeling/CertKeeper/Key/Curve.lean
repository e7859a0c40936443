import CertKeeper.Encoding.Octets
import CertKeeper.Key.Modular

/-!
# Prime curves

The curves P-256 and P-384, with the equation `y² = x³ - 3x + b` over a prime field. A
`Point` is in Jacobian coordinates: it stands for `(x / z², y / z³)`, and for the neutral
element if `z` is zero. `Curve.publicOctets` gives the public key of a private number.
-/

namespace CertKeeper

/-- A curve, given by its prime, the order of its generator, the generator, and the
number of octets of a residue. -/
structure Curve where
  p : Nat
  order : Nat
  x : Nat
  y : Nat
  width : Nat

namespace Curve

/-- The curve P-256. -/
def p256 : Curve where
  p := Nat.pow 2 256 - Nat.pow 2 224 + Nat.pow 2 192 + Nat.pow 2 96 - 1
  order := 0xffffffff00000000ffffffffffffffffbce6faada7179e84f3b9cac2fc632551
  x := 0x6b17d1f2e12c4247f8bce6e563a440f277037d812deb33a0f4a13945d898c296
  y := 0x4fe342e2fe1a7f9b8ee7eb4a7c0f9e162bce33576b315ececbb6406837bf51f5
  width := 32

/-- The curve P-384. -/
def p384 : Curve where
  p := Nat.pow 2 384 - Nat.pow 2 128 - Nat.pow 2 96 + Nat.pow 2 32 - 1
  order := 0xffffffffffffffffffffffffffffffffffffffffffffffffc7634d81f4372ddf581a0db248b0a77aecec196accc52973
  x := 0xaa87ca22be8b05378eb1c71ef320ad746e1d3b628ba79b9859f741e082542a385502f25dbf55296c3a545e3872760ab7
  y := 0x3617de4a96262c6f5d9e98bf9292dc29f8f41dbd289a147ce9da3113b5f0b8c00a60b1ce1d7e819d7a431d7c90ea0e5f
  width := 48

/-- A point in Jacobian coordinates. -/
structure Point where
  x : Nat
  y : Nat
  z : Nat

/-- The neutral element. -/
def zero : Point := ⟨1, 1, 0⟩

/-- The generator. -/
def generator (c : Curve) : Point := ⟨c.x, c.y, 1⟩

/-- Twice a point. -/
def double (c : Curve) (a : Point) : Point :=
  let sub := Modular.sub c.p
  let delta := a.z * a.z % c.p
  let gamma := a.y * a.y % c.p
  let beta := a.x * gamma % c.p
  let alpha := 3 * sub a.x delta * ((a.x + delta) % c.p) % c.p
  let x := sub (alpha * alpha % c.p) (8 * beta % c.p)
  let y := sub (alpha * sub (4 * beta % c.p) x % c.p) (8 * gamma * gamma % c.p)
  ⟨x, y, 2 * a.y * a.z % c.p⟩

/-- The sum of two points. -/
def add (c : Curve) (a b : Point) : Point :=
  if a.z = 0 then b
  else if b.z = 0 then a
  else
    let sub := Modular.sub c.p
    let aa := a.z * a.z % c.p
    let bb := b.z * b.z % c.p
    let u := a.x * bb % c.p
    let s := a.y * b.z % c.p * bb % c.p
    let h := sub (b.x * aa % c.p) u
    let r := sub (b.y * a.z % c.p * aa % c.p) s
    if h = 0 then
      if r = 0 then c.double a else zero
    else
      let hh := h * h % c.p
      let hhh := h * hh % c.p
      let v := u * hh % c.p
      let x := sub (sub (r * r % c.p) hhh) (2 * v % c.p)
      let y := sub (r * sub v x % c.p) (s * hhh % c.p)
      ⟨x, y, a.z * b.z % c.p * h % c.p⟩

/-- The multiple of the generator. -/
def multiple (c : Curve) (n : Nat) : Point :=
  (Modular.bits (8 * c.width) n).foldl
    (fun acc bit => let twice := c.double acc; if bit then c.add twice c.generator else twice) zero

/-- The octets of a point other than the neutral element. -/
def octets (c : Curve) (a : Point) : Octets :=
  let inverse := Modular.inverse c.p a.z
  let square := inverse * inverse % c.p
  let x := a.x * square % c.p
  let y := a.y * square % c.p * inverse % c.p
  4 :: (Octets.ofNat c.width x ++ Octets.ofNat c.width y)

/-- The octets of the public key of a private number. -/
def publicOctets (c : Curve) (n : Nat) : Octets := c.octets (c.multiple n)

/-- The number of a private key. It lies between zero and the order of the generator. -/
def privateNumber? (c : Curve) (bytes : Octets) : Option Nat :=
  let n := Octets.toNat bytes
  if bytes.length = c.width ∧ 0 < n ∧ n < c.order then some n else none

end Curve

end CertKeeper
