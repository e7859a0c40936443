import CertKeeper.Certificate.Authority
import CertKeeper.Rotation.Marks

/-!
# When a certificate is due

The annotations of a secret record the validity of its certificate. `Metadata.due?` says
for which `DueReason`, if any, the certificate is to be replaced: because its validity is
not recorded, because it has expired, because a fifth of its validity or less is left, or
because the renewal time has passed since its start. A renewal time that leads beyond the
calendar counts as the end of the validity.
-/

namespace CertKeeper

/-- Why a certificate is to be replaced. -/
inductive DueReason where
  | missing (name : String)
  | expired (notAfter : Instant)
  | pastLatest (latest : Instant)
  | pastRefresh (refreshAt : Instant)
  deriving DecidableEq

/-- The text of a reason. -/
def DueReason.text : DueReason → String
  | missing name => "missing " ++ name
  | expired notAfter => "already expired at " ++ Rfc3339.display notAfter
  | pastLatest latest => "past its latest possible time " ++ Rfc3339.display latest
  | pastRefresh refreshAt => "past its refresh time " ++ Rfc3339.display refreshAt

namespace Validity

/-- The time at which a fifth of a validity is left. -/
def latest (notBefore notAfter : Instant) : Except Stop Instant :=
  match notAfter.add? (-(notAfter.since notBefore / 5)) with
  | none => .error .overflow
  | some t => .ok t

/-- The renewal time, or the end of the validity if it is beyond the calendar. -/
def refreshAt (notBefore notAfter : Instant) (refresh : Duration) : Instant :=
  if longest < refresh.nanos then notAfter else (notBefore.add? refresh.nanos).getD notAfter

/-- Why a certificate with a recorded validity is to be replaced. -/
def due? (notBefore notAfter : Instant) (refresh : Duration) (now : Instant) :
    Except Stop (Option DueReason) :=
  if now.notBefore notAfter then
    .ok (some (.expired notAfter))
  else do
    let latest ← latest notBefore notAfter
    if now.notBefore latest then
      return some (.pastLatest latest)
    else if now.notBefore (refreshAt notBefore notAfter refresh) then
      return some (.pastRefresh (refreshAt notBefore notAfter refresh))
    else
      return none

end Validity

/-- Why the certificate of a secret is to be replaced. -/
def Metadata.due? (m : Metadata) (refresh : Duration) (now : Instant) :
    Except Stop (Option DueReason) :=
  match m.timeAt? AnnotationKey.notBefore, m.timeAt? AnnotationKey.notAfter with
  | none, _ => .ok (some (.missing AnnotationKey.notBefore))
  | some _, none => .ok (some (.missing AnnotationKey.notAfter))
  | some notBefore, some notAfter => Validity.due? notBefore notAfter refresh now

/-- The secret with the validity of a certificate recorded on it. -/
def Secret.withValidity (s : Secret) (info : CertificateInfo) : Secret :=
  (s.annotate AnnotationKey.notBefore (Rfc3339.writeSeconds info.notBefore)).annotate
    AnnotationKey.notAfter (Rfc3339.writeSeconds info.notAfter)

end CertKeeper
