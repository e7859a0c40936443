import CertKeeper.Encoding.Octets

/-!
# SHA-512

The hash function with 64-bit words. Its constants are the first 64 bits of the fractions
of the square roots of the first eight primes and of the cube roots of the first eighty.
-/

namespace CertKeeper.Sha512

/-- The number is a prime. -/
def isPrime (n : Nat) : Bool := 2 ≤ n && (List.range n).all (fun d => d < 2 || n % d ≠ 0)

/-- The first eighty primes. -/
def primes : List Nat := (List.range 410).filter isPrime

/-- The greatest number of at most `bits` more bits than `acc` whose power is at most `n`. -/
def rootFrom (power n : Nat) : (bits : Nat) → (acc : Nat) → Nat
  | 0, acc => acc
  | bits + 1, acc =>
    let candidate := acc + Nat.pow 2 bits
    rootFrom power n bits (if Nat.pow candidate power ≤ n then candidate else acc)

/-- The first 64 bits of the fraction of a root of a number. -/
def rootFraction (power n : Nat) : UInt64 :=
  UInt64.ofNat (rootFrom power (n * Nat.pow 2 (64 * power)) 70 0 % Nat.pow 2 64)

/-- The constants of the rounds. -/
def roundConstants : List UInt64 := primes.map (rootFraction 3)

/-- The eight words of the state. -/
structure State where
  a : UInt64
  b : UInt64
  c : UInt64
  d : UInt64
  e : UInt64
  f : UInt64
  g : UInt64
  h : UInt64

/-- The state before the first block. -/
def initialState : State :=
  match (primes.take 8).map (rootFraction 2) with
  | [a, b, c, d, e, f, g, h] => ⟨a, b, c, d, e, f, g, h⟩
  | _ => ⟨0, 0, 0, 0, 0, 0, 0, 0⟩

/-- The word rotated to the right. -/
def rotate (x n : UInt64) : UInt64 := x >>> n ||| x <<< (64 - n)

/-- The words of the schedule, the last one first, with one more. -/
def extend (words : List UInt64) : List UInt64 :=
  let x := words.getD 1 0
  let y := words.getD 14 0
  let sx := rotate x 19 ^^^ rotate x 61 ^^^ (x >>> 6)
  let sy := rotate y 1 ^^^ rotate y 8 ^^^ (y >>> 7)
  (sx + words.getD 6 0 + sy + words.getD 15 0) :: words

/-- The words of the schedule of a block of 16 words. -/
def schedule (block : List UInt64) : List UInt64 :=
  (Nat.repeat extend 64 block.reverse).reverse

/-- One round with a constant and a word of the schedule. -/
def round (s : State) (p : UInt64 × UInt64) : State :=
  let se := rotate s.e 14 ^^^ rotate s.e 18 ^^^ rotate s.e 41
  let choice := (s.e &&& s.f) ^^^ (~~~s.e &&& s.g)
  let t := s.h + se + choice + p.1 + p.2
  let sa := rotate s.a 28 ^^^ rotate s.a 34 ^^^ rotate s.a 39
  let majority := (s.a &&& s.b) ^^^ (s.a &&& s.c) ^^^ (s.b &&& s.c)
  ⟨t + sa + majority, s.a, s.b, s.c, s.d + t, s.e, s.f, s.g⟩

/-- The state after a block. -/
def compress (s : State) (block : List UInt64) : State :=
  let t := (roundConstants.zip (schedule block)).foldl round s
  ⟨s.a + t.a, s.b + t.b, s.c + t.c, s.d + t.d, s.e + t.e, s.f + t.f, s.g + t.g, s.h + t.h⟩

/-- The message with its padding to full blocks of 128 octets and its length in bits. -/
def padded (message : Octets) : Octets :=
  let zeros := (239 - message.length % 128) % 128
  message ++ 0x80 :: List.replicate zeros 0 ++ Octets.ofNat 16 (8 * message.length)

/-- The parts of a list of a length that is not zero, of which there are at most `fuel`. -/
def chunks {α : Type} (size : Nat) : (fuel : Nat) → List α → List (List α)
  | 0, _ => []
  | fuel + 1, l => if l.isEmpty then [] else l.take size :: chunks size fuel (l.drop size)

/-- The words of octets. -/
def words (bytes : Octets) : List UInt64 :=
  (chunks 8 bytes.length bytes).map (fun w => UInt64.ofNat (Octets.toNat w))

/-- The 64 octets of the hash of a message. -/
def hash (message : Octets) : Octets :=
  let bytes := padded message
  let s := ((chunks 128 bytes.length bytes).map words).foldl compress initialState
  [s.a, s.b, s.c, s.d, s.e, s.f, s.g, s.h].flatMap (fun w => Octets.ofNat 8 w.toNat)

end CertKeeper.Sha512
