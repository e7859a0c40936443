import CertKeeper.Certificate
import CertKeeper.Encoding.Pem
import CertKeeper.Error

/-!
# What matters about a certificate

`CertificateInfo` holds the fields of a certificate that the rotation looks at. A
`TrustedCertificate` is a certificate of a bundle with its text. `parseCertificates`
reads all certificates of a text and `encodeBundle` writes a list of them as one text.
-/

namespace CertKeeper

/-- The fields of a certificate that the rotation looks at. -/
structure CertificateInfo where
  commonName : String
  issuerCommonName : String
  notBefore : Instant
  notAfter : Instant
  dnsNames : List String
  isAuthority : Bool
  serverAuth : Bool
  clientAuth : Bool
  deriving DecidableEq

namespace CertificateInfo

/-- The fields of a certificate. Only malformed alternative names are an error. -/
def ofCertificate (c : Certificate) : Except CertificateFault CertificateInfo :=
  match c.extension? Extension.altNamesOid AltName.ofValue? with
  | none => .error (.malformedAltNames "malformed or repeated")
  | some altNames =>
    let usage := (c.extension? Extension.extendedUsageOid ExtendedUsage.ofValue?).join
    let constraints := (c.extension? Extension.constraintsOid BasicConstraints.ofValue?).join
    .ok {
      commonName := c.subject.commonName
      issuerCommonName := c.issuer.commonName
      notBefore := Instant.ofSeconds c.notBefore
      notAfter := Instant.ofSeconds c.notAfter
      dnsNames := (altNames.getD []).filterMap AltName.hostname?
      isAuthority := constraints.any BasicConstraints.isAuthority
      serverAuth := usage.any ExtendedUsage.serverAuth
      clientAuth := usage.any ExtendedUsage.clientAuth }

/-- The fields of the certificate at the start of octets. -/
def ofOctets (bytes : Octets) : Except CertificateFault CertificateInfo :=
  match Certificate.read? bytes with
  | none => .error (.malformed "not a certificate")
  | some c => ofCertificate c

/-- The validity has ended. -/
def isExpired (i : CertificateInfo) (now : Instant) : Bool := now.notBefore i.notAfter

end CertificateInfo

/-- A certificate that is trusted through a bundle. -/
structure TrustedCertificate where
  pem : String
  info : CertificateInfo
  deriving DecidableEq

/-- The tag of blocks with certificates. -/
def certificateTag : String := "CERTIFICATE"

/-- The text of a certificate. -/
def encodeCertificate (bytes : Octets) : String := Pem.encode ⟨certificateTag, bytes⟩

/-- The certificate of octets. -/
def TrustedCertificate.ofOctets (bytes : Octets) : Except CertificateFault TrustedCertificate := do
  let info ← CertificateInfo.ofOctets bytes
  return ⟨encodeCertificate bytes, info⟩

/-- The certificates of a text, in order. -/
def parseCertificates (text : String) : Except CertificateFault (List TrustedCertificate) :=
  match Pem.blocks text with
  | none => .error (.malformedPem "malformed block")
  | some blocks =>
    (blocks.filter (fun b => b.tag = certificateTag)).mapM
      (fun b => TrustedCertificate.ofOctets b.content)

/-- The text of a list of certificates. -/
def encodeBundle (certs : List TrustedCertificate) : String := String.join (certs.map (·.pem))

end CertKeeper
