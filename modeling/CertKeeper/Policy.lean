import CertKeeper.Duration.ClockText

/-!
# Policies

A `Policy` says how long a certificate is to be valid and how long after its start it is
to be renewed. Its `fingerprint` is the text that an object carries to record the policy
that it was last brought in line with.
-/

namespace CertKeeper

/-- The validity and the renewal time of a certificate. -/
structure Policy where
  lifetime : Duration
  refresh : Duration
  deriving DecidableEq

/-- The text that records a policy on an object. -/
def Policy.fingerprint (p : Policy) : String :=
  "\x7b\"lifetime\":\"" ++ p.lifetime.clockText ++ "\",\"refresh\":\"" ++ p.refresh.clockText
    ++ "\"\x7d"

end CertKeeper
