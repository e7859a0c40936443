import CertKeeper.NameSet

/-!
# Host names of a service

A service is reached under its name, its name within its namespace, and that name within
the services of the cluster. `hostnamesText` writes the set of the names of a
certificate, in increasing order and each once, to be compared with the set of another.
-/

namespace CertKeeper

/-- The names under which a service is reached. -/
def serviceHostnames (service ns : String) : List String :=
  [service, service ++ "." ++ ns, service ++ "." ++ ns ++ ".svc"]

/-- The set of host names as a text. -/
def hostnamesText (hostnames : List String) : String :=
  ",".intercalate (NameSet.ofNames hostnames).names

end CertKeeper
