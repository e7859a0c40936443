import CertKeeper.Encoding.Octets

/-!
# Distinguished encoding

An `Element` is a tag and a content of octets, which may again be elements. Elements are
read leniently in one respect: a length may take more octets than it needs. `element?`
reads one element, `many` as many as there are, `tagged?` one with a given tag number,
and `write` writes one. Object identifiers are kept as the octets that encode them.
-/

namespace CertKeeper.Der

/-- What comes before the content of an element. -/
structure Header where
  cls : Nat
  constructed : Bool
  tag : Nat
  length : Nat

/-- A tag and a content. -/
structure Element where
  cls : Nat
  constructed : Bool
  tag : Nat
  content : Octets

/-! ### Tag numbers -/

/-- The tag number of truth values. -/
def booleanTag : Nat := 1

/-- The tag number of integers. -/
def integerTag : Nat := 2

/-- The tag number of sequences of bits. -/
def bitStringTag : Nat := 3

/-- The tag number of sequences of octets. -/
def octetStringTag : Nat := 4

/-- The tag number of object identifiers. -/
def oidTag : Nat := 6

/-- The tag number of sequences. -/
def sequenceTag : Nat := 16

/-- The tag number of sets. -/
def setTag : Nat := 17

/-! ### Reading -/

/-- A tag number of several octets, of which at most `limit` more may come. -/
def longTag? (acc : Nat) : (limit : Nat) → Octets → Option (Nat × Octets)
  | 0, _ => none
  | _ + 1, [] => none
  | limit + 1, b :: rest =>
    let acc := (acc * 128 + b.toNat % 128) % Nat.pow 2 32
    if b < 128 then some (acc, rest) else longTag? acc limit rest

/-- A tag number, of which `low` is in the first octet. -/
def tagNumber? (low : Nat) (rest : Octets) : Option (Nat × Octets) :=
  if low = 31 then longTag? 0 5 rest else some (low, rest)

/-- The length of a content. An indefinite length is refused. -/
def length? : Octets → Option (Nat × Octets)
  | [] => none
  | b :: rest =>
    if b < 128 then
      some (b.toNat, rest)
    else
      let count := b.toNat - 128
      if count = 0 ∨ count = 127 ∨ rest.length < count then
        none
      else
        let n := Octets.toNat (rest.take count)
        if n < Nat.pow 2 64 then some (n, rest.drop count) else none

/-- The header at the start of octets. -/
def header? : Octets → Option (Header × Octets)
  | [] => none
  | b :: rest => do
    let (tag, rest) ← tagNumber? (b.toNat % 32) rest
    let (length, rest) ← length? rest
    return (⟨b.toNat / 64, b.toNat / 32 % 2 = 1, tag, length⟩, rest)

/-- The element at the start of octets. -/
def element? (bytes : Octets) : Option (Element × Octets) := do
  let (h, rest) ← header? bytes
  if h.length ≤ rest.length then
    some (⟨h.cls, h.constructed, h.tag, rest.take h.length⟩, rest.drop h.length)
  else
    none

/-- The content of an element with a tag number, whatever the class of its tag. -/
def tagged? (tag : Nat) (bytes : Octets) : Option (Octets × Octets) := do
  let (e, rest) ← element? bytes
  if e.tag = tag then some (e.content, rest) else none

/-- The content of an element with a tag number and no elements in it. -/
def primitive? (tag : Nat) (bytes : Octets) : Option (Octets × Octets) := do
  let (e, rest) ← element? bytes
  if e.tag = tag ∧ !e.constructed then some (e.content, rest) else none

/-- As many items as `read` finds, at most `fuel` of them. -/
def manyFrom {α : Type} (read : Octets → Option (α × Octets)) : (fuel : Nat) → Octets → List α × Octets
  | 0, bytes => ([], bytes)
  | fuel + 1, bytes =>
    match read bytes with
    | none => ([], bytes)
    | some (a, rest) =>
      let (items, rest) := manyFrom read fuel rest
      (a :: items, rest)

/-- As many items as `read` finds, if it takes an octet for each. -/
def many {α : Type} (read : Octets → Option (α × Octets)) (bytes : Octets) : List α × Octets :=
  manyFrom read bytes.length bytes

/-- The items that make up octets. -/
def all? {α : Type} (read : Octets → Option (α × Octets)) (bytes : Octets) : Option (List α) :=
  let (items, rest) := many read bytes
  if rest.isEmpty then some items else none

/-- Eight zero bits end with eight zeros, and other octets with as many as they have. -/
def trailingZeros (b : UInt8) : Nat :=
  (List.range 8).takeWhile (fun i => b.toNat / Nat.pow 2 i % 2 = 0) |>.length

/-- The octets of the content of a sequence of bits, whose last bits may be unused and
then are zero. -/
def bits? : Octets → Option Octets
  | [] => none
  | [unused] => if unused = 0 then some [] else none
  | unused :: b :: rest =>
    if unused.toNat ≤ trailingZeros ((b :: rest).getLastD 0) then some (b :: rest) else none

/-- A sequence of bits. -/
def bitString? (bytes : Octets) : Option (Octets × Octets) := do
  let (content, rest) ← primitive? bitStringTag bytes
  return (← bits? content, rest)

/-- The number of the content of an integer that is not negative. -/
def natural? : Octets → Option Nat
  | [] => none
  | b :: rest => if b < 128 then some (Octets.toNat (b :: rest)) else none

/-! ### Writing -/

/-- The octets of a length. There are none for a length that takes more than eight octets, so
the mark of an indefinite length stands for it, which is never read. -/
def lengthOctets (n : Nat) : Octets :=
  if n < 128 then [UInt8.ofNat n]
  else if n < Nat.pow 2 64 then UInt8.ofNat (128 + Octets.width n) :: Octets.minimal n
  else [0x80]

/-- An element whose tag takes one octet. -/
def write (tagOctet : UInt8) (content : Octets) : Octets :=
  tagOctet :: (lengthOctets content.length ++ content)

/-- A sequence. -/
def sequence (items : List Octets) : Octets := write 0x30 items.flatten

/-- A set. -/
def set (items : List Octets) : Octets := write 0x31 items.flatten

/-- The content of an integer that is not negative. -/
def naturalContent (n : Nat) : Octets :=
  match Octets.minimal n with
  | [] => [0]
  | b :: rest => if b < 128 then b :: rest else 0 :: b :: rest

/-- An integer that is not negative. -/
def natural (n : Nat) : Octets := write 0x02 (naturalContent n)

/-- A sequence of bits that fill their octets. -/
def bitString (bytes : Octets) : Octets := write 0x03 (0 :: bytes)

/-- A sequence of octets. -/
def octetString (bytes : Octets) : Octets := write 0x04 bytes

/-- An object identifier. -/
def oid (bytes : Octets) : Octets := write 0x06 bytes

/-- The truth value that holds. -/
def isTrue : Octets := write 0x01 [0xFF]

/-- No value. -/
def null : Octets := write 0x05 []

/-! ### Object identifiers -/

/-- The arcs of an identifier after the first octet, after `acc` of the next one. -/
def arcsFrom (acc : Nat) : Octets → List Nat
  | [] => []
  | b :: rest =>
    let acc := acc * 128 + b.toNat % 128
    if b < 128 then acc :: arcsFrom 0 rest else arcsFrom acc rest

/-- The arcs of an identifier. The first two share a number. -/
def arcs (bytes : Octets) : List Nat :=
  match arcsFrom 0 bytes with
  | [] => []
  | first :: rest => min (first / 40) 2 :: (first - 40 * min (first / 40) 2) :: rest

end CertKeeper.Der
