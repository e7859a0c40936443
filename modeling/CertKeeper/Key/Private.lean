import CertKeeper.Certificate
import CertKeeper.Encoding.Pem
import CertKeeper.Key.Curve
import CertKeeper.Key.Edwards

/-!
# Private keys

A private key is kept as the text of a block, whatever its tag, with a PKCS #8 record.
`PrivateKey.ofPem?` reads it, for the curves P-256 and P-384, Ed25519 and RSA. The record
has to be in distinguished encoding without anything left over, and a public key in it
has to be the one that the private key determines. Of the key, what matters is its
algorithm and its public key. `KeyPair.generate` makes key pairs on P-256 from numbers.
-/

namespace CertKeeper

/-- The algorithms of keys. -/
inductive KeyAlgorithm where
  | p256 | p384 | ed25519 | rsa
  deriving DecidableEq

namespace KeyAlgorithm

/-- The content of the identifier of an algorithm. -/
def identifier : KeyAlgorithm → Octets
  | p256 => Der.oid [0x2A, 0x86, 0x48, 0xCE, 0x3D, 0x02, 0x01]
    ++ Der.oid [0x2A, 0x86, 0x48, 0xCE, 0x3D, 0x03, 0x01, 0x07]
  | p384 => Der.oid [0x2A, 0x86, 0x48, 0xCE, 0x3D, 0x02, 0x01] ++ Der.oid [0x2B, 0x81, 0x04, 0x00, 0x22]
  | ed25519 => Der.oid [0x2B, 0x65, 0x70]
  | rsa => Der.oid [0x2A, 0x86, 0x48, 0x86, 0xF7, 0x0D, 0x01, 0x01, 0x01] ++ Der.null

/-- The type of signatures with a key. -/
def signatureOid : KeyAlgorithm → Octets
  | p256 => [0x2A, 0x86, 0x48, 0xCE, 0x3D, 0x04, 0x03, 0x02]
  | p384 => [0x2A, 0x86, 0x48, 0xCE, 0x3D, 0x04, 0x03, 0x03]
  | ed25519 => [0x2B, 0x65, 0x70]
  | rsa => [0x2A, 0x86, 0x48, 0x86, 0xF7, 0x0D, 0x01, 0x01, 0x0B]

/-- The algorithm of the keys that signatures of a type are made with. -/
def ofSignatureOid? (oid : Octets) : Option KeyAlgorithm :=
  [p256, p384, ed25519, rsa].find? (fun algorithm => algorithm.signatureOid = oid)

end KeyAlgorithm

/-- What matters about a private key: its algorithm and the bits of its public key. -/
structure PrivateKey where
  algorithm : KeyAlgorithm
  publicBits : Octets
  deriving DecidableEq

namespace PrivateKey

/-- The public key of a private key. -/
def publicKey (k : PrivateKey) : PublicKey := ⟨k.algorithm.identifier, k.publicBits⟩

/-! ### Records in distinguished encoding -/

/-- The content of an element with a tag of one octet, and the octets after it. A length
takes at most three octets and as few as it needs. -/
def item? (tag : UInt8) : Octets → Option (Octets × Octets)
  | t :: n :: rest =>
    if t ≠ tag then
      none
    else
      let sized? (length : Nat) (rest : Octets) : Option (Octets × Octets) :=
        if length ≤ rest.length then some (rest.take length, rest.drop length) else none
      if n < 128 then
        sized? n.toNat rest
      else
        match n, rest with
        | 0x81, a :: rest => if 128 ≤ a then sized? a.toNat rest else none
        | 0x82, a :: b :: rest => if 0 < a then sized? (256 * a.toNat + b.toNat) rest else none
        | _, _ => none
  | _ => none

/-- The content of the only element. -/
def only? (tag : UInt8) (bytes : Octets) : Option Octets :=
  match item? tag bytes with
  | some (content, []) => some content
  | _ => none

/-- An integer that is not negative, in as few octets as it needs. -/
def natural? (bytes : Octets) : Option (Nat × Octets) := do
  let (content, rest) ← item? 0x02 bytes
  match content with
  | [] => none
  | [b] => if b < 128 then some (b.toNat, rest) else none
  | a :: b :: more =>
    if a < 128 ∧ (a ≠ 0 ∨ 128 ≤ b) then some (Octets.toNat (a :: b :: more), rest) else none

/-- The octets of a sequence of bits that fill them. -/
def fullBits? : Octets → Option Octets
  | 0 :: bits => some bits
  | _ => none

/-- The octets of the private key of a record with the identifier of an algorithm, and of
its public key, which a record of version 1 has to have. -/
def record? (identifier : Octets) (bytes : Octets) : Option (Octets × Option Octets) := do
  let content ← only? 0x30 bytes
  let (version, content) ← natural? content
  let (actual, content) ← item? 0x30 content
  let (key, content) ← item? 0x04 content
  let content := match item? 0xA0 content with
    | some (_, rest) => rest
    | none => content
  if actual ≠ identifier then none
  match version with
  | 0 => if content.isEmpty then some (key, none) else none
  | 1 =>
    let bits ← (only? 0x81 content).or ((only? 0xA1 content).bind (only? 0x03))
    return (key, some (← fullBits? bits))
  | _ => none

/-! ### Algorithms -/

/-- The public key of a record with a key of Ed25519. -/
def ofEd25519? (bytes : Octets) : Option PrivateKey := do
  let (key, given) ← record? (KeyAlgorithm.identifier .ed25519) bytes
  let seed ← only? 0x04 key
  if seed.length ≠ 32 then none
  let derived := Edwards.publicOctets seed
  if given.all (fun bits => bits = derived) then some ⟨.ed25519, derived⟩ else none

/-- The public key of a record with a key on a prime curve. -/
def ofCurve? (algorithm : KeyAlgorithm) (curve : Curve) (curveOid : Octets) (bytes : Octets) :
    Option PrivateKey := do
  let (key, given) ← record? algorithm.identifier bytes
  if given.isSome then none
  let content ← only? 0x30 key
  let (version, content) ← natural? content
  if version ≠ 1 then none
  let (number, content) ← item? 0x04 content
  let content ← match item? 0xA0 content with
    | some (oid, rest) => if oid = curveOid then some rest else none
    | none => some content
  let bits ← (← only? 0x03 (← only? 0xA1 content)) |> fullBits?
  let n ← curve.privateNumber? number
  if bits = curve.publicOctets n then some ⟨algorithm, bits⟩ else none

/-- The eight numbers of an RSA key, if they belong together. The modulus has 2048 to
4096 bits and is the product of two primes of half its length. -/
def checkRsa (n e d p q dp dq inverse : Nat) : Bool :=
  let bits := n.log2 + 1
  2041 ≤ bits && bits ≤ 4096 && n % 2 = 1 && e % 2 = 1 && 65537 ≤ e && e < Nat.pow 2 33
    && p * q = n && (p.log2 + 1) * 2 = (bits + 1) / 2 * 2 && (q.log2 + 1) * 2 = (bits + 1) / 2 * 2
    && d < n && d % 2 = 1 && Nat.pow 2 (bits / 2) ≤ d && dp < p && dp % 2 = 1 && dq < q && dq % 2 = 1
    && inverse < p && inverse * q % p = 1

/-- The public key of a record with an RSA key. -/
def ofRsa? (bytes : Octets) : Option PrivateKey := do
  let (key, given) ← record? (KeyAlgorithm.identifier .rsa) bytes
  if given.isSome then none
  let content ← only? 0x30 key
  let (version, content) ← natural? content
  if version ≠ 0 then none
  let (n, content) ← natural? content
  let (e, content) ← natural? content
  let (d, content) ← natural? content
  let (p, content) ← natural? content
  let (q, content) ← natural? content
  let (dp, content) ← natural? content
  let (dq, content) ← natural? content
  let (inverse, content) ← natural? content
  if content.isEmpty && checkRsa n e d p q dp dq inverse then
    some ⟨.rsa, Der.sequence [Der.natural n, Der.natural e]⟩
  else
    none

/-- The private key of a record. -/
def ofOctets? (bytes : Octets) : Option PrivateKey :=
  (ofEd25519? bytes).or
    ((ofCurve? .p256 Curve.p256 (Der.oid [0x2A, 0x86, 0x48, 0xCE, 0x3D, 0x03, 0x01, 0x07]) bytes).or
      ((ofCurve? .p384 Curve.p384 (Der.oid [0x2B, 0x81, 0x04, 0x00, 0x22]) bytes).or (ofRsa? bytes)))

/-- The private key of the first block of a text. -/
def ofPem? (text : String) : Option PrivateKey := (Pem.first text).bind (fun b => ofOctets? b.content)

end PrivateKey

/-- A private key and its text. -/
structure KeyPair where
  pem : String
  key : PrivateKey
  deriving DecidableEq

namespace KeyPair

/-- The record of a private number on P-256. -/
def record (n : Nat) : Octets :=
  Der.sequence [
    Der.natural 0,
    Der.sequence [KeyAlgorithm.identifier .p256],
    Der.octetString (Der.sequence [
      Der.natural 1,
      Der.octetString (Octets.ofNat Curve.p256.width n),
      Der.write 0xA1 (Der.bitString (Curve.p256.publicOctets n))])]

/-- The key pair of a private number on P-256. -/
def ofNumber (n : Nat) : KeyPair :=
  ⟨Pem.encode ⟨"PRIVATE KEY", record n⟩, ⟨.p256, Curve.p256.publicOctets n⟩⟩

/-- The key pair of a seed. Different seeds below the order of the curve, less one, give
different key pairs. -/
def generate (seed : Nat) : KeyPair := ofNumber (seed % (Curve.p256.order - 1) + 1)

end KeyPair

end CertKeeper
