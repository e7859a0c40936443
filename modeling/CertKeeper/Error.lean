import CertKeeper.ResourceRef

/-!
# Errors

An `Error` is a cause for which a piece of work ends early, and `Error.message` is its
text. Failures of a cluster call are told apart by code and reason: `isNotFound`,
`isAlreadyExists` and `isConflict` are the ones that the rotation answers to. A `Stop`
is an error or the end of a computation whose date lies beyond the calendar.
-/

namespace CertKeeper

/-- The refusal of a call by the cluster. -/
structure ApiFailure where
  code : Nat
  reason : String
  message : String
  deriving DecidableEq

/-- What is wrong with a certificate or with the text that should hold it. -/
inductive CertificateFault where
  | malformed (cause : String)
  | malformedPem (cause : String)
  | malformedAltNames (cause : String)
  | noCertificate
  | notAuthority (commonName : String)
  | missingEntry (key : String)
  | described (text : String)
  deriving DecidableEq

/-- The text of a fault of a certificate. -/
def CertificateFault.message : CertificateFault → String
  | malformed cause => "failed to parse certificate: " ++ cause
  | malformedPem cause => "failed to parse PEM: " ++ cause
  | malformedAltNames cause => "bad subject alternative names: " ++ cause
  | noCertificate => "no certificate in PEM"
  | notAuthority commonName => commonName ++ " is not a CA certificate"
  | missingEntry key => "missing " ++ key
  | described text => text

/-- What is wrong with a definition. -/
inductive DefinitionFault where
  | incompleteRef (field : String) (ref : ResourceRef)
  | noTargetPolicy (secret : ResourceRef)
  | serviceAndUser (secret : ResourceRef)
  | noIdentity (secret : ResourceRef)
  | described (text : String)
  deriving DecidableEq

/-- The text of a fault of a definition. -/
def DefinitionFault.message : DefinitionFault → String
  | incompleteRef field ref =>
    field ++ " needs both namespace and name, got `" ++ ref.text ++ "`"
  | noTargetPolicy secret => "targetSecret " ++ secret.text ++ " requires targetConfig"
  | serviceAndUser secret =>
    "targetSecret " ++ secret.text ++ " sets both targetService and targetUser"
  | noIdentity secret =>
    "targetSecret " ++ secret.text ++ " requires a non-empty targetService or targetUser"
  | described text => text

/-- Why the caches of a namespace did not become ready. -/
inductive CacheFault where
  | cancelled (ns : String)
  | timedOut (ns : String)
  | dropped (ns : String)
  | described (text : String)
  deriving DecidableEq

/-- The text of a fault of the caches. -/
def CacheFault.message : CacheFault → String
  | cancelled ns => "cancelled while waiting for namespace " ++ ns
  | timedOut ns => "timed out waiting for namespace " ++ ns
  | dropped ns => "namespace " ++ ns ++ ": writer was dropped before store became ready"
  | described text => text

/-- Faults of no other class. -/
inductive OtherFault where
  | durationOutOfRange
  | invalidTime (cause : String)
  | noHostname
  | described (text : String)
  deriving DecidableEq

/-- The text of a fault of no other class. -/
def OtherFault.message : OtherFault → String
  | durationOutOfRange => "Source duration value is out of range for the target type"
  | invalidTime cause => "invalid certificate time: " ++ cause
  | noHostname => "serving certificate needs a hostname"
  | described text => text

/-- A cause for which a piece of work ends early. -/
inductive Error where
  | serialization (cause : String)
  | yaml (cause : String)
  | api (failure : ApiFailure)
  | client (cause : String)
  | io (cause : String)
  | certificate (cause : String)
  | invalidCertificate (fault : CertificateFault)
  | noCache (ns : String)
  | cacheSync (fault : CacheFault)
  | invalidDefinition (fault : DefinitionFault)
  | other (fault : OtherFault)
  deriving DecidableEq

namespace Error

/-- The text of an error. -/
def message : Error → String
  | serialization cause => "SerializationError: " ++ cause
  | yaml cause => "Yaml Error: " ++ cause
  | api failure => "Kube Error: ApiError: " ++ failure.message
  | client cause => "Kube Error: " ++ cause
  | io cause => "IO Error: " ++ cause
  | certificate cause => "Certificate Error: " ++ cause
  | invalidCertificate fault => "Invalid Certificate: " ++ fault.message
  | noCache ns => "no lister for namespace " ++ ns
  | cacheSync fault => "could not sync informer cache: " ++ fault.message
  | invalidDefinition fault => "Invalid Certificate Definition: " ++ fault.message
  | other fault => "Other Error: " ++ fault.message

/-- The cluster has no such object. -/
def isNotFound : Error → Bool
  | api failure => failure.code = 404
  | _ => false

/-- The object to create was there already. -/
def isAlreadyExists : Error → Bool
  | api failure => failure.code = 409 && failure.reason = "AlreadyExists"
  | _ => false

/-- The object to update had been written since it was read. -/
def isConflict : Error → Bool
  | api failure => failure.code = 409 && failure.reason = "Conflict"
  | _ => false

end Error

/-- Why a computation ends without a result: an error, or a date beyond the calendar. -/
inductive Stop where
  | error (cause : Error)
  | overflow
  deriving DecidableEq

end CertKeeper
