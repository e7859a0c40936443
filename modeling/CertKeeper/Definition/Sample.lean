import CertKeeper.Definition.Record
import CertKeeper.Yaml.Write

/-!
# Sample definitions

`Definition.sample` is a pair of definitions to start from: a serving certificate for a
service, and a client certificate for the account of the same service.
`Definition.sampleFile` writes them as a file, if they are valid.
-/

namespace CertKeeper

/-- A number of hours. -/
def Duration.hours (n : Nat) (h : n < 1000000) : Duration :=
  ⟨n * (3600 * nanosPerSecond), by unfold secondsBound nanosPerSecond; omega⟩

namespace Definition

/-- The policy of sample signers: thirty days, and renewal when ten of them have passed. -/
def sampleSignerPolicy : Policy := ⟨.hours 720 (by decide), .hours 240 (by decide)⟩

/-- The policy of sample leaf certificates: a day, and renewal when half of it has passed. -/
def sampleLeafPolicy : Policy := ⟨.hours 24 (by decide), .hours 12 (by decide)⟩

/-- A serving certificate for a service and a client certificate for its account. -/
def sample (ns service : String) : List Definition :=
  [{ signer := ⟨ns, service ++ "-signer"⟩
     signerPolicy := sampleSignerPolicy
     bundle := some ⟨ns, service ++ "-ca-bundle"⟩
     target := some ⟨ns, service ++ "-server-cert"⟩
     targetPolicy := some sampleLeafPolicy
     service := some service
     user := none },
   { signer := ⟨ns, "client-signer"⟩
     signerPolicy := sampleSignerPolicy
     bundle := some ⟨ns, "client-ca-bundle"⟩
     target := some ⟨ns, "client-cert"⟩
     targetPolicy := some sampleLeafPolicy
     service := none
     user := some ("system:serviceaccount:" ++ ns ++ ":" ++ service) }]

/-- The file of the sample definitions, if they are valid. -/
def sampleFile (ns service : String) : Except DefinitionFault String := do
  validate (sample ns service)
  return Yaml.write (listToDocument (sample ns service))

end Definition

end CertKeeper
