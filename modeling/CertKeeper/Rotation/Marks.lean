import CertKeeper.Cluster.Object
import CertKeeper.Policy
import CertKeeper.Time.Rfc3339

/-!
# Annotations and keys of managed objects

The names under which managed objects carry what the rotation has to remember: the policy
a secret was last brought in line with, the validity and the issuer of its certificate,
and the host names the certificate is for. `Secret.withFingerprint?` records a policy on a
secret, and moves the end of the recorded validity to the present, so that the
certificate of a former policy counts as expired.
-/

namespace CertKeeper

namespace AnnotationKey

/-- The policy that a secret was last brought in line with. -/
def policy : String := "certrotation.operator.io/certConfig"

/-- The start of the validity of the certificate. -/
def notBefore : String := "certrotation.operator.io/certificate-not-before"

/-- The end of the validity of the certificate. -/
def notAfter : String := "certrotation.operator.io/certificate-not-after"

/-- The common name of the issuer of the certificate. -/
def issuer : String := "certrotation.operator.io/certificate-issuer"

/-- The host names that the certificate is for. -/
def hostnames : String := "certrotation.operator.io/certificate-hostnames"

end AnnotationKey

namespace EntryKey

/-- The certificate of a secret. -/
def certificate : String := "tls.crt"

/-- The private key of a secret. -/
def privateKey : String := "tls.key"

/-- The certificates that a leaf's secret says to trust. -/
def authority : String := "ca.crt"

/-- The certificates of a bundle. -/
def bundle : String := "ca-bundle.crt"

end EntryKey

/-- The instant of an annotation. There is none if its text is no time stamp. -/
def Metadata.timeAt? (m : Metadata) (name : String) : Option Instant :=
  (m.annotationAt? name).bind Rfc3339.read?

/-- The secret with a policy recorded on it, or nothing if it carries that record
already. -/
def Secret.withFingerprint? (s : Secret) (desired : String) (now : Instant) : Option Secret :=
  if s.annotationAt? AnnotationKey.policy = some desired then
    none
  else
    let expired :=
      if (s.annotationAt? AnnotationKey.notAfter).isSome then
        s.annotate AnnotationKey.notAfter (Rfc3339.writeSeconds now)
      else
        s
    some (expired.annotate AnnotationKey.policy desired)

end CertKeeper
