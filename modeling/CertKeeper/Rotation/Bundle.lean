import CertKeeper.Cluster.Request
import CertKeeper.Rotation.Marks

/-!
# Bundles

A bundle is a config map with the certificates that are to be trusted: the one of the
present signer first, and then every earlier one that has not expired. `Bundle.ensure`
brings a bundle in line with a signer. If another writer changes the bundle at the same
time, it is read again and the change is tried once more.
-/

namespace CertKeeper.Bundle

/-- The present certificate, and those of a bundle that have not expired, each at its
first place. -/
def merge (now : Instant) (present : TrustedCertificate) (existing : List TrustedCertificate) :
    List TrustedCertificate :=
  existing.foldl
    (fun certs cert =>
      if cert.info.isExpired now || certs.any (fun c => c.pem = cert.pem) then certs
      else certs ++ [cert])
    [present]

/-- The certificates of a text, or none if it cannot be read. -/
def readable (text : String) : List TrustedCertificate := (parseCertificates text).toOption.getD []

/-- Write a copy of the bundle with the certificate of a signer, unless it is up to date. -/
def publish (ref : ResourceRef) (ca : Authority) (copy : Option ConfigMap) :
    Procedure (List TrustedCertificate) := do
  let configMap := copy.getD (ConfigMap.new ref)
  let published := (configMap.text? EntryKey.bundle).getD ""
  let certs := merge (← Procedure.clock) ca.trusted (readable published)
  let text := encodeBundle certs
  if copy.isSome ∧ text = published then
    return certs
  else
    let updated := configMap.withText EntryKey.bundle text
    let stored ←
      if copy.isSome then Procedure.update .configMap ref.ns updated
      else Procedure.create .configMap ref.ns updated
    Procedure.publish stored "CABundleUpdated" "Updated"
      ("CA bundle now trusts `" ++ ca.info.commonName ++ "` and " ++ Decimal.text (certs.length - 1)
        ++ " older certificate(s)")
    return certs

/-- The certificates of the bundle, with the one of a signer first. -/
def ensure (ref : ResourceRef) (ca : Authority) : Procedure (List TrustedCertificate) := do
  let copy ← Procedure.current .configMap none ref
  tryCatch (publish ref ca copy) (fun stop =>
    match stop with
    | .error e =>
      if e.isConflict || e.isAlreadyExists then do
        let live ← Procedure.find .configMap ref
        publish ref ca live
      else
        throw (.error e)
    | .overflow => throw .overflow)

end CertKeeper.Bundle
