import CertKeeper.Rotation.Hostnames
import CertKeeper.Rotation.Signer

/-!
# Leaf certificates

A leaf certificate is kept in a secret with its key pair and the certificates to trust.
`LeafStage.ensure` issues a new one if the secret holds none, if it was issued by another
signer or for other host names, or if its certificate is due.
-/

namespace CertKeeper

/-- A leaf certificate to be kept in a secret, with the latest copy of the secret if it is
known. -/
structure LeafStage where
  ref : ResourceRef
  policy : Policy
  request : LeafRequest
  known : Option Secret

namespace LeafStage

/-- Why a leaf certificate has to be replaced. -/
inductive Reason where
  | missing (name : String)
  | otherIssuer (issuer authority : String)
  | otherAuthority (authority : String)
  | otherHostnames (hostnames : String)
  | due (reason : DueReason)

/-- The text of a reason. -/
def Reason.text : Reason → String
  | missing name => "missing " ++ name
  | otherIssuer issuer authority => "issued by `" ++ issuer ++ "` instead of `" ++ authority ++ "`"
  | otherAuthority authority => "not issued by the current CA `" ++ authority ++ "`"
  | otherHostnames hostnames => "not valid for hostnames " ++ hostnames
  | due reason => reason.text

/-- The secret has no text at a key, or an empty one. -/
def lacks (secret : Secret) (key : String) : Bool := (secret.text? key).all String.isEmpty

/-- The first certificate that a secret says to trust. -/
def publishedAuthority? (secret : Secret) : Option TrustedCertificate :=
  (secret.text? EntryKey.authority).bind (fun text => (parseCertificates text).toOption.bind List.head?)

/-- The text of the host names of a request for a server. -/
def hostnames? : LeafRequest → Option String
  | .serving hostnames => some (hostnamesText hostnames)
  | .client _ => none

/-- Why the certificate of a secret does not serve, whatever its validity. -/
def mismatch? (r : LeafStage) (secret : Secret) (ca : Authority) : Option Reason :=
  if lacks secret EntryKey.certificate then
    some (.missing EntryKey.certificate)
  else if lacks secret EntryKey.privateKey then
    some (.missing EntryKey.privateKey)
  else
    match secret.annotationAt? AnnotationKey.issuer with
    | none => some (.missing AnnotationKey.issuer)
    | some issuer =>
      if issuer ≠ ca.info.commonName then
        some (.otherIssuer issuer ca.info.commonName)
      else if (publishedAuthority? secret).all (fun first => first.pem ≠ ca.certPem) then
        some (.otherAuthority ca.info.commonName)
      else
        match hostnames? r.request with
        | none => none
        | some wanted =>
          if secret.annotationAt? AnnotationKey.hostnames = some wanted then none
          else some (.otherHostnames wanted)

/-- Why the certificate of a secret has to be replaced. -/
def reason? (r : LeafStage) (secret : Secret) (ca : Authority) (now : Instant) :
    Except Stop (Option Reason) :=
  match r.mismatch? secret ca with
  | some reason => .ok (some reason)
  | none => return (← secret.metadata.due? r.policy.refresh now).map Reason.due

/-- The secret with a new leaf certificate. -/
def filled (r : LeafStage) (secret : Secret) (ca : Authority) (bundle : List TrustedCertificate)
    (issued : IssuedCertificate) : Secret :=
  let secret := ((secret.withKeyPair issued.certPem issued.keyPem issued.info).withText
    EntryKey.authority (encodeBundle bundle)).annotate AnnotationKey.issuer ca.info.commonName
  match hostnames? r.request with
  | none => secret
  | some hostnames => secret.annotate AnnotationKey.hostnames hostnames

/-- Issue a certificate. A new key pair is made once nothing else can go wrong. -/
def issue (r : LeafStage) (ca : Authority) : Procedure IssuedCertificate := do
  let now ← Procedure.clock
  let _ ← Procedure.ofComputation (ca.prepare r.request now r.policy.lifetime)
  let key ← Procedure.newKey
  Procedure.ofComputation (ca.sign r.request now r.policy.lifetime key)

/-- Issue a certificate and store it. -/
def rotate (r : LeafStage) (secret : Secret) (ca : Authority) (bundle : List TrustedCertificate)
    (reason : Reason) : Procedure Unit := do
  let issued ← r.issue ca
  let stored ← Procedure.store r.ref.ns (r.filled secret ca bundle issued)
  Procedure.publish stored "TargetUpdated" "Rotated"
    ("Certificate `" ++ issued.info.commonName ++ "` issued by `" ++ ca.info.commonName
      ++ "` because it is " ++ reason.text)

/-- Replace the leaf certificate if need be. -/
def ensure (r : LeafStage) (ca : Authority) (bundle : List TrustedCertificate) : Procedure Unit := do
  let secret := (← Procedure.current .secret r.known r.ref).getD (Secret.new r.ref)
  let now ← Procedure.clock
  match ← Procedure.ofComputation (r.reason? secret ca now) with
  | none => return ()
  | some reason => r.rotate secret ca bundle reason

end LeafStage

end CertKeeper
