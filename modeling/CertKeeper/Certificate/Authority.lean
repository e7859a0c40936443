import CertKeeper.Certificate.Info
import CertKeeper.Certificate.Issuer
import CertKeeper.Key.Private

/-!
# Authorities

An `Authority` is a certificate that may issue others, with the private key to sign with.
`Authority.generate` makes a new one that signs itself, `Authority.ofPem` loads one from
its texts, and `Authority.sign` issues a leaf certificate for a `LeafRequest`. Validity
starts with the second of the clock and lasts the whole seconds of a lifetime:
`Validity.starting` computes it, and stops if the end is beyond the calendar.

Issuing is deterministic, and new keys are handed in. Signatures are symbolic: nothing is computed
with a private key, and in the place of a signature stand the bits of the public key that verifies
it. Its type is the one of the algorithm of the key, so that both together give the public key of
whoever signed (`Certificate.isSignedBy`).
-/

namespace CertKeeper

/-- The validity and the serial number of a new certificate. -/
structure Validity where
  notBefore : Int
  notAfter : Int
  serial : Nat
  deriving DecidableEq

namespace Validity

/-- The longest lifetime that dates can be moved by, in nanoseconds. -/
def longest : Nat := 9223372036854775807000000

/-- The first second of a year. -/
def startOfYear (year : Int) : Int := Date.dayNumber ⟨year, 1, 1⟩ * Instant.secondsPerDay

/-- The time can stand in a certificate. -/
def checkTime (seconds : Int) : Except Stop Unit :=
  if startOfYear (-9999) ≤ seconds ∧ seconds < startOfYear 10000 then .ok ()
  else .error (.error (.other (.invalidTime "year out of range")))

/-- The serial number of a certificate issued at an instant: the nanoseconds since the
start of 1970 if they fit in 64 bits with a sign, and never zero. -/
def serialAt (now : Instant) : Nat :=
  if -9223372036854775808 ≤ now.unixNanos ∧ now.unixNanos < 9223372036854775808 then max now.unixNanos.natAbs 1 else 1

/-- The validity of a certificate issued at an instant for a lifetime. -/
def starting (now : Instant) (lifetime : Duration) : Except Stop Validity := do
  if longest < lifetime.nanos then
    throw (.error (.other .durationOutOfRange))
  match now.truncate.add? lifetime.nanos with
  | none => throw .overflow
  | some stop =>
    checkTime now.seconds
    checkTime stop.seconds
    if now.seconds < startOfYear 0 then throw .overflow
    return ⟨now.seconds, stop.seconds, serialAt now⟩

end Validity

/-- What a leaf certificate is to be issued for. -/
inductive LeafRequest where
  | serving (hostnames : List String)
  | client (user : String)
  deriving DecidableEq

namespace LeafRequest

/-- The host names of a request. -/
def hostnames : LeafRequest → List String
  | serving hostnames => hostnames
  | client _ => []

/-- The common name of the certificate. There is none without host names. -/
def commonName : LeafRequest → Except Error String
  | serving hostnames =>
    match hostnames with
    | [] => .error (.other .noHostname)
    | first :: _ => .ok first
  | client user => .ok user

/-- The extended use of the certificate's key. -/
def extendedUse : LeafRequest → Octets
  | serving _ => ExtendedUsage.serverAuthOid
  | client _ => ExtendedUsage.clientAuthOid

/-- Host names have only ASCII characters. -/
def checkHostnames (r : LeafRequest) : Except Error Unit :=
  if r.hostnames.all IssuerName.isAscii then .ok ()
  else .error (.certificate "host name outside ASCII")

end LeafRequest

/-- A certificate with the private key that belongs to it. -/
structure IssuedCertificate where
  certPem : String
  keyPem : String
  info : CertificateInfo
  deriving DecidableEq

/-- A certificate that may issue others and a private key. -/
structure Authority where
  certPem : String
  keyPem : String
  info : CertificateInfo
  deriving DecidableEq

/-- The identifier of a public key: the first twenty octets of a hash of it. This stands for the default
method of rcgen, which truncates a SHA-256 hash. What is proved uses the length of identifiers alone. -/
def PublicKey.identifier (k : PublicKey) : Octets := (Sha512.hash k.bits).take 20

/-- The extension with an identifier of the issuer's key. -/
def Extension.authorityKey (identifier : Octets) : Extension :=
  ⟨authorityKeyOid, false, Der.sequence [Der.write 0x80 identifier]⟩

/-- The extension with an identifier of the certificate's key. -/
def Extension.subjectKey (identifier : Octets) : Extension :=
  ⟨subjectKeyOid, false, Der.octetString identifier⟩

namespace Certificate

/-- A certificate was signed by the owner of a public key. The signature is symbolic: its type gives the
algorithm of the key, and its content the bits. -/
def isSignedBy (c : Certificate) (k : PublicKey) : Bool :=
  (KeyAlgorithm.ofSignatureOid? c.signatureAlgorithm).any
    (fun algorithm => PrivateKey.publicKey ⟨algorithm, c.signature⟩ = k)

/-- The identifier of the key of a certificate. -/
def keyIdentifier (c : Certificate) : Octets :=
  match c.extensionsOf Extension.subjectKeyOid with
  | x :: _ => ((Der.primitive? Der.octetStringTag x.value).map (·.1)).getD c.publicKey.identifier
  | [] => c.publicKey.identifier

/-- The certificate of a new authority, signed with its own key. -/
def selfSigned (commonName : String) (v : Validity) (key : PrivateKey) : Certificate where
  serial := Der.naturalContent v.serial
  issuer := Name.ofCommonName commonName
  notBefore := v.notBefore
  notAfter := v.notAfter
  subject := Name.ofCommonName commonName
  publicKey := key.publicKey
  extensions := [
    ⟨Extension.keyUsageOid, true, KeyUse.valueOf [.keyCertSign, .crlSign, .digitalSignature]⟩,
    Extension.subjectKey key.publicKey.identifier,
    ⟨Extension.constraintsOid, true, BasicConstraints.authorityValue⟩]
  signatureAlgorithm := key.algorithm.signatureOid
  signature := key.publicBits

/-- A leaf certificate for a public key, signed with the key of an issuer. -/
def leaf (issuer : Name) (issuerKey : Octets) (signer : PrivateKey) (commonName : String)
    (request : LeafRequest) (v : Validity) (key : PublicKey) : Certificate where
  serial := Der.naturalContent v.serial
  issuer := issuer
  notBefore := v.notBefore
  notAfter := v.notAfter
  subject := Name.ofCommonName commonName
  publicKey := key
  extensions :=
    [Extension.authorityKey issuerKey]
    ++ (if request.hostnames.isEmpty then []
      else [⟨Extension.altNamesOid, false, AltName.valueOfHostnames request.hostnames⟩])
    ++ [⟨Extension.keyUsageOid, true, KeyUse.valueOf [.digitalSignature, .keyEncipherment]⟩,
      ⟨Extension.extendedUsageOid, false, ExtendedUsage.valueOf request.extendedUse⟩]
  signatureAlgorithm := signer.algorithm.signatureOid
  signature := signer.publicBits

end Certificate

namespace Authority

/-- The authority of the first certificate of a text and the private key of another. The
key is loaded first. It need not belong to the certificate. -/
def ofPem (certPem keyPem : String) : Except Error Authority :=
  match PrivateKey.ofPem? keyPem with
  | none => .error (.certificate "no private key")
  | some _ =>
    match parseCertificates certPem with
    | .error fault => .error (.invalidCertificate fault)
    | .ok [] => .error (.invalidCertificate .noCertificate)
    | .ok (cert :: _) =>
      if cert.info.isAuthority then
        .ok ⟨cert.pem, keyPem, cert.info⟩
      else
        .error (.invalidCertificate (.notAuthority cert.info.commonName))

/-- A new authority with a new key pair. -/
def generate (commonName : String) (v : Validity) (key : KeyPair) : Except Error Authority :=
  ofPem (encodeCertificate (Certificate.selfSigned commonName v key.key).write) key.pem

/-- The certificate of an authority as a trusted one. -/
def trusted (a : Authority) : TrustedCertificate := ⟨a.certPem, a.info⟩

/-- Two authorities have the same certificate. -/
def same (a b : Authority) : Bool := a.certPem = b.certPem

/-- The certificate of a text of one block. -/
def certificate? (pem : String) : Option Certificate :=
  (Pem.first pem).bind (fun b => Certificate.read? b.content)

/-- A private key belongs to a certificate: the certificate has the public key of it, with the same
algorithm and the same bits. Nothing is known if the key or the certificate cannot be read. -/
def keyMatches? (certPem keyPem : String) : Option Bool := do
  let key ← PrivateKey.ofPem? keyPem
  let cert ← certificate? certPem
  return key.publicKey = cert.publicKey

/-- The key, the certificate and the name with which an authority signs. -/
def signer (a : Authority) : Except Error (PrivateKey × Certificate × Name) :=
  match PrivateKey.ofPem? a.keyPem with
  | none => .error (.certificate "no private key")
  | some key =>
    match certificate? a.certPem with
    | none => .error (.certificate "no certificate")
    | some cert =>
      match IssuerName.ofCertificate? cert with
      | none => .error (.certificate "certificate cannot issue")
      | some name => .ok (key, cert, name)

/-- What has to hold of a request before a key pair is made for it: the common name and
the validity of the certificate, and the signer. -/
def prepare (a : Authority) (request : LeafRequest) (now : Instant) (lifetime : Duration) :
    Except Stop (String × Validity × PrivateKey × Certificate × Name) := do
  let commonName ← request.commonName.mapError Stop.error
  let v ← Validity.starting now lifetime
  request.checkHostnames.mapError Stop.error
  let (key, cert, name) ← a.signer.mapError Stop.error
  return (commonName, v, key, cert, name)

/-- A leaf certificate for a request, with a new key pair. -/
def sign (a : Authority) (request : LeafRequest) (now : Instant) (lifetime : Duration)
    (key : KeyPair) : Except Stop IssuedCertificate := do
  let (commonName, v, signer, cert, name) ← a.prepare request now lifetime
  let bytes := (Certificate.leaf name cert.keyIdentifier signer commonName request v
    key.key.publicKey).write
  let info ← (CertificateInfo.ofOctets bytes).mapError (fun fault => .error (.invalidCertificate fault))
  return ⟨encodeCertificate bytes, key.pem, info⟩

end Authority

end CertKeeper
