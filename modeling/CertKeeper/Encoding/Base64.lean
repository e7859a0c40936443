import CertKeeper.Encoding.Octets

/-!
# Base 64

Three octets are written as four characters of an alphabet of 64, and a shorter rest is
filled up with the character `=`. `Base64.encode` writes octets and `Base64.decode?`
reads exactly what it writes.
-/

namespace CertKeeper.Base64

/-- The character of a number below 64. -/
def symbol (n : Nat) : Char :=
  if n < 26 then Char.ofNat (65 + n)
  else if n < 52 then Char.ofNat (71 + n)
  else if n < 62 then Char.ofNat (n - 4)
  else if n = 62 then '+'
  else '/'

/-- The number of a character. -/
def value? (c : Char) : Option Nat :=
  let n := c.toNat
  if 65 ≤ n ∧ n ≤ 90 then some (n - 65)
  else if 97 ≤ n ∧ n ≤ 122 then some (n - 71)
  else if 48 ≤ n ∧ n ≤ 57 then some (n + 4)
  else if c = '+' then some 62
  else if c = '/' then some 63
  else none

/-- The characters of octets. -/
def encode : Octets → List Char
  | [] => []
  | [a] => [symbol (a.toNat / 4), symbol (a.toNat % 4 * 16), '=', '=']
  | [a, b] =>
    [symbol (a.toNat / 4), symbol (a.toNat % 4 * 16 + b.toNat / 16), symbol (b.toNat % 16 * 4), '=']
  | a :: b :: c :: rest =>
    symbol (a.toNat / 4) :: symbol (a.toNat % 4 * 16 + b.toNat / 16)
      :: symbol (b.toNat % 16 * 4 + c.toNat / 64) :: symbol (c.toNat % 64) :: encode rest

/-- The octet of a number below 256. -/
def octet (n : Nat) : UInt8 := UInt8.ofNat n

/-- The octets of the last four characters, of which the last one is a filler. -/
def decodeEnd? (a b c : Char) : Option Octets := do
  let x ← value? a
  let y ← value? b
  if c = '=' then
    if y % 16 = 0 then some [octet (x * 4 + y / 16)] else none
  else do
    let z ← value? c
    if z % 4 = 0 then some [octet (x * 4 + y / 16), octet (y % 16 * 16 + z / 4)] else none

/-- The octets of four characters without a filler. -/
def decodeGroup? (a b c d : Char) : Option (UInt8 × UInt8 × UInt8) := do
  let x ← value? a
  let y ← value? b
  let z ← value? c
  let w ← value? d
  some (octet (x * 4 + y / 16), octet (y % 16 * 16 + z / 4), octet (z % 4 * 64 + w))

/-- The octets of characters. -/
def decode? : List Char → Option Octets
  | [] => some []
  | a :: b :: c :: d :: rest =>
    if rest.isEmpty ∧ d = '=' then
      decodeEnd? a b c
    else do
      let (x, y, z) ← decodeGroup? a b c d
      let tail ← decode? rest
      some (x :: y :: z :: tail)
  | _ => none

end CertKeeper.Base64
