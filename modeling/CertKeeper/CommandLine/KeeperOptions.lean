import CertKeeper.CommandLine.Option
import CertKeeper.CommandLine.SocketAddress
import CertKeeper.Duration.UnitText

/-!
# The options of the keeper

The command line of the program that keeps certificates, with defaults for what is not
given.
-/

namespace CertKeeper.CommandLine

/-- The form of the log. -/
inductive LogFormat where
  | compact
  | json
  deriving DecidableEq

/-- The name of a form. -/
def LogFormat.name : LogFormat → String
  | .compact => "compact"
  | .json => "json"

/-- The form of a name. -/
def LogFormat.ofName? (name : String) : Option LogFormat :=
  [LogFormat.compact, LogFormat.json].find? (fun form => form.name = name)

/-- What a command line says. -/
structure KeeperOptions where
  installNamespace : Option String
  additionalNamespaces : List String
  definitions : String
  resyncInterval : Duration
  cacheSyncTimeout : Duration
  listen : SocketAddress
  logFormat : LogFormat

namespace KeeperOptions

/-- The duration of a value. -/
def readDuration (name value : String) : Except UsageFault Duration :=
  (Duration.read value).mapError (fun fault =>
    .rejectedValue name ("invalid duration `" ++ value ++ "`: " ++ fault.text))

/-- The address of a value. -/
def readAddress (name value : String) : Except UsageFault SocketAddress :=
  match SocketAddress.read? value with
  | some address => .ok address
  | none => .error (.rejectedValue name "invalid socket address syntax")

/-- The form of a value. -/
def readFormat (name value : String) : Except UsageFault LogFormat :=
  match LogFormat.ofName? value with
  | some form => .ok form
  | none => .error (.invalidValue name)

/-- The path of a value. -/
def readPath (name value : String) : Except UsageFault String :=
  if value.isEmpty then .error (.invalidValue name) else .ok value

/-- The options that there are. -/
def table : List OptionSpec := [
  { name := "install-namespace", envVar := some "INSTALL_NAMESPACE" },
  { name := "additional-namespace", envVar := some "ADDITIONAL_NAMESPACES", listing := true },
  { name := "definitions", envVar := some "CERT_DEFINITIONS"
    check := fun value => do let _ ← readPath "definitions" value },
  { name := "resync-interval", envVar := some "RESYNC_INTERVAL"
    check := fun value => do let _ ← readDuration "resync-interval" value },
  { name := "cache-sync-timeout", envVar := some "CACHE_SYNC_TIMEOUT"
    check := fun value => do let _ ← readDuration "cache-sync-timeout" value },
  { name := "listen", envVar := some "LISTEN_ADDRESS"
    check := fun value => do let _ ← readAddress "listen" value },
  { name := "log-format", envVar := some "LOG_FORMAT"
    check := fun value => do let _ ← readFormat "log-format" value }]

/-- The value of an option, or its default. -/
def valueOr (found : Options) (name default : String) : String := (found.value? name).getD default

/-- The options of a command line in an environment. -/
def read (env : String → Option String) (arguments : List String) :
    Except UsageFault KeeperOptions := do
  let found ← Options.read table env arguments
  match found.value? "definitions" with
  | none => throw (.missingOption "definitions")
  | some definitions =>
    return {
      installNamespace := found.value? "install-namespace"
      additionalNamespaces := found.values "additional-namespace"
      definitions := definitions
      resyncInterval := ← readDuration "resync-interval" (valueOr found "resync-interval" "5m")
      cacheSyncTimeout :=
        ← readDuration "cache-sync-timeout" (valueOr found "cache-sync-timeout" "2m")
      listen := ← readAddress "listen" (valueOr found "listen" "0.0.0.0:8080")
      logFormat := ← readFormat "log-format" (valueOr found "log-format" "compact") }

end KeeperOptions

end CertKeeper.CommandLine
