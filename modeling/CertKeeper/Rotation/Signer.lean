import CertKeeper.Cluster.Request
import CertKeeper.Rotation.Due

/-!
# Signers

A signer is an authority that is kept in a secret. `SignerRequest.ensure` loads it, and
replaces it by a new one if it cannot be loaded or its certificate is due.
-/

namespace CertKeeper

/-- A signer to be kept in a secret, with the latest copy of the secret if it is known. -/
structure SignerRequest where
  ref : ResourceRef
  policy : Policy
  known : Option Secret

/-- The text at a key, which has to be there. -/
def Secret.required (s : Secret) (key : String) : Except Error String :=
  match s.text? key with
  | none => .error (.invalidCertificate (.missingEntry key))
  | some text => .ok text

/-- The authority of a secret. -/
def Secret.authority (s : Secret) : Except Error Authority := do
  let cert ← s.required EntryKey.certificate
  let key ← s.required EntryKey.privateKey
  Authority.ofPem cert key

/-- The secret with a key pair and the validity of its certificate. -/
def Secret.withKeyPair (s : Secret) (certPem keyPem : String) (info : CertificateInfo) : Secret :=
  ((s.withText EntryKey.certificate certPem).withText EntryKey.privateKey keyPem).withValidity info

namespace SignerRequest

/-- Why a signer has to be replaced. -/
inductive Reason where
  | due (reason : DueReason)
  | unusable (cause : Error)

/-- The text of a reason. -/
def Reason.text : Reason → String
  | due reason => reason.text
  | unusable cause => "without a usable key pair (" ++ cause.message ++ ")"

/-- The signer of a secret, or why it has to be replaced. -/
def check (r : SignerRequest) (secret : Secret) (now : Instant) :
    Except Stop (Except Reason Authority) :=
  match secret.authority with
  | .error e => .ok (.error (.unusable e))
  | .ok ca => do
    match ← secret.metadata.due? r.policy.refresh now with
    | some reason => return .error (.due reason)
    | none => return .ok ca

/-- The common name of a signer that is made at an instant. -/
def commonName (r : SignerRequest) (now : Instant) : String :=
  r.ref.ns ++ "_" ++ r.ref.name ++ "@" ++ Decimal.signed now.seconds

/-- Make a new signer and store it. -/
def rotate (r : SignerRequest) (secret : Secret) (now : Instant) (reason : Reason) :
    Procedure Authority := do
  let commonName := r.commonName now
  let validity ← Procedure.ofComputation (Validity.starting (← Procedure.clock) r.policy.lifetime)
  let ca ← Procedure.ofResult (Authority.generate commonName validity (← Procedure.newKey))
  let stored ← Procedure.store r.ref.ns (secret.withKeyPair ca.certPem ca.keyPem ca.info)
  Procedure.publish stored "SignerUpdated" "Rotated"
    ("Signing CA `" ++ commonName ++ "` rotated because it is " ++ reason.text)
  return ca

/-- The signer, replaced if need be. -/
def ensure (r : SignerRequest) : Procedure Authority := do
  let secret := (← Procedure.current .secret r.known r.ref).getD (Secret.new r.ref)
  let now ← Procedure.clock
  match ← Procedure.ofComputation (r.check secret now) with
  | .ok ca => return ca
  | .error reason => r.rotate secret now reason

end SignerRequest

end CertKeeper
