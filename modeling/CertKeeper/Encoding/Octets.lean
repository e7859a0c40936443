/-!
# Octets

Natural numbers as octets, most significant first: `Octets.toNat` reads them,
`Octets.ofNat` writes a number in a given number of them and `Octets.minimal` in as few as
it takes.
-/

namespace CertKeeper

/-- A sequence of octets. -/
abbrev Octets := List UInt8

namespace Octets

/-- The number of a sequence of octets, after the number `acc`. -/
def toNatFrom (acc : Nat) : Octets → Nat
  | [] => acc
  | b :: rest => toNatFrom (256 * acc + b.toNat) rest

/-- The number of a sequence of octets. -/
def toNat (bytes : Octets) : Nat := toNatFrom 0 bytes

/-- The lowest `width` octets of a number, before the octets `rest`. -/
def ofNatBefore (rest : Octets) : (width : Nat) → Nat → Octets
  | 0, _ => rest
  | width + 1, n => ofNatBefore (UInt8.ofNat (n % 256) :: rest) width (n / 256)

/-- The lowest `width` octets of a number. -/
def ofNat (width n : Nat) : Octets := ofNatBefore [] width n

/-- The number of octets that a number takes. -/
def width (n : Nat) : Nat := if n = 0 then 0 else n.log2 / 8 + 1

/-- The octets of a number, without leading zeros. -/
def minimal (n : Nat) : Octets := ofNat (width n) n

/-- The text of octets, if they are one. -/
def text? (bytes : Octets) : Option String := String.fromUTF8? ⟨bytes.toArray⟩

/-- The octets of a text. -/
def ofText (text : String) : Octets := text.toUTF8.toList

end Octets

end CertKeeper
