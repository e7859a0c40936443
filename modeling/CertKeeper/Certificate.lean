import CertKeeper.Certificate.Extension
import CertKeeper.Certificate.Time

/-!
# Certificates

A `Certificate` is the content of an X.509 certificate: its serial number, issuer,
validity, subject, public key, extensions and signature. `Certificate.read?` reads one
from octets and skips what follows it, and `Certificate.write` writes one. Signatures are
not checked.
-/

namespace CertKeeper

/-- The algorithm and the bits of a public key. -/
structure PublicKey where
  algorithm : Octets
  bits : Octets
  deriving DecidableEq

/-- The content of a certificate. The validity is in seconds since the start of 1970. -/
structure Certificate where
  serial : Octets
  issuer : Name
  notBefore : Int
  notAfter : Int
  subject : Name
  publicKey : PublicKey
  extensions : List Extension
  signatureAlgorithm : Octets
  signature : Octets
  deriving DecidableEq

namespace Certificate

/-- The identifier of an algorithm at the start of octets: its type and its parameters. -/
def algorithm? (bytes : Octets) : Option (Octets × Octets × Octets) := do
  let (content, rest) ← Der.tagged? Der.sequenceTag bytes
  let (oid, parameters) ← Der.primitive? Der.oidTag content
  if parameters.isEmpty then
    return (oid, [], rest)
  else do
    let (_, after) ← Der.element? parameters
    return (oid, parameters.take (parameters.length - after.length), rest)

/-- The octets after the version, if there is one. Its number takes at most four octets. -/
def afterVersion? (bytes : Octets) : Option Octets := do
  let (h, rest) ← Der.header? bytes
  if h.tag = 0 then
    let (content, rest) ← Der.primitive? Der.integerTag rest
    let number ← Der.natural? content
    if number < Nat.pow 2 32 then some rest else none
  else
    some bytes

/-- The public key at the start of octets. -/
def publicKey? (bytes : Octets) : Option (PublicKey × Octets) := do
  let (content, rest) ← Der.tagged? Der.sequenceTag bytes
  let (oid, parameters, content) ← algorithm? content
  let (bits, _) ← Der.bitString? content
  return (⟨Der.oid oid ++ parameters, bits⟩, rest)

/-- The octets after an identifier of issuer or subject, if there is one. -/
def afterUniqueId? (tag : Nat) (bytes : Octets) : Option Octets :=
  match Der.header? bytes with
  | none => if bytes.isEmpty then some [] else none
  | some (h, _) =>
    if h.cls = 2 ∧ h.tag = tag then do
      let (e, rest) ← Der.element? bytes
      let _ ← Der.bits? e.content
      if e.constructed then none else some rest
    else
      some bytes

/-- The extensions that octets hold, which may be none. -/
def extensions? (bytes : Octets) : Option (List Extension) :=
  if bytes.isEmpty then
    some []
  else do
    let (h, rest) ← Der.header? bytes
    if h.tag ≠ 3 then none
    let (content, rest) ← Der.tagged? Der.sequenceTag rest
    if !rest.isEmpty then none
    Der.all? Extension.read? content

/-- The start and the end of the validity at the start of octets. -/
def validity? (bytes : Octets) : Option (Int × Int × Octets) := do
  let (content, rest) ← Der.tagged? Der.sequenceTag bytes
  let (notBefore, content) ← CertificateTime.read? content
  let (notAfter, _) ← CertificateTime.read? content
  return (notBefore, notAfter, rest)

/-- The certificate at the start of octets. -/
def read? (bytes : Octets) : Option Certificate := do
  let (content, _) ← Der.tagged? Der.sequenceTag bytes
  let (body, content) ← Der.tagged? Der.sequenceTag content
  let body ← afterVersion? body
  let (serial, body) ← Der.tagged? Der.integerTag body
  let (_, _, body) ← algorithm? body
  let (issuer, body) ← Name.read? body
  let (notBefore, notAfter, body) ← validity? body
  let (subject, body) ← Name.read? body
  let (publicKey, body) ← publicKey? body
  let body ← afterUniqueId? 1 body
  let body ← afterUniqueId? 2 body
  let extensions ← extensions? body
  let (signatureAlgorithm, _, content) ← algorithm? content
  let (signature, _) ← Der.bitString? content
  return {
    serial, issuer, notBefore, notAfter, subject, publicKey, extensions, signatureAlgorithm,
    signature }

/-- The octets of a public key. -/
def writePublicKey (k : PublicKey) : Octets :=
  Der.sequence [Der.sequence [k.algorithm], Der.bitString k.bits]

/-- The octets of a certificate of version 3. -/
def write (c : Certificate) : Octets :=
  Der.sequence [
    Der.sequence [
      Der.write 0xA0 (Der.natural 2),
      Der.write 0x02 c.serial,
      Der.sequence [Der.oid c.signatureAlgorithm],
      c.issuer.write,
      Der.sequence [CertificateTime.write c.notBefore, CertificateTime.write c.notAfter],
      c.subject.write,
      writePublicKey c.publicKey,
      Der.write 0xA3 (Der.sequence (c.extensions.map Extension.write))],
    Der.sequence [Der.oid c.signatureAlgorithm],
    Der.bitString c.signature]

/-- The extensions of a type. -/
def extensionsOf (c : Certificate) (oid : Octets) : List Extension :=
  c.extensions.filter (fun x => x.oid = oid)

/-- What `read` makes of the extension of a type: nothing if there is none, and a failure
if it is repeated or malformed. -/
def extension? {α : Type} (c : Certificate) (oid : Octets) (read : Octets → Option α) :
    Option (Option α) :=
  match c.extensionsOf oid with
  | [] => some none
  | [x] => (read x.value).map some
  | _ => none

end Certificate

end CertKeeper
