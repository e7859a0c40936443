import CertKeeper.Definition
import CertKeeper.Document
import CertKeeper.Duration.UnitText

/-!
# Definitions as documents

References, policies and definitions written as records of a document and read from
them: `toDocument` writes and `ofDocument?` reads. Names of fields are exact, unknown
fields are skipped, a field given twice is refused, and durations are texts of counts of
units.
-/

namespace CertKeeper

open Document (record? ofFields asOptional?)

namespace ResourceRef

/-- The names of the fields of a reference. -/
def fieldNames : List String := ["namespace", "name"]

/-- The reference of a record. -/
def ofDocument? (d : Document) : Option ResourceRef := do
  match ← record? fieldNames d with
  | [some ns, some name] => return ⟨← ns.asText?, ← name.asText?⟩
  | _ => none

/-- The record of a reference. -/
def toDocument (r : ResourceRef) : Document :=
  ofFields [("namespace", some (.text r.ns)), ("name", some (.text r.name))]

end ResourceRef

namespace Duration

/-- The duration of a text of counts of units. -/
def ofDocument? (d : Document) : Option Duration := do
  (read (← d.asText?)).toOption

/-- The text of a duration as a document. -/
def toDocument (d : Duration) : Document := .text d.write

end Duration

namespace Policy

/-- The names of the fields of a policy. -/
def fieldNames : List String := ["lifetime", "refresh"]

/-- The policy of a record. -/
def ofDocument? (d : Document) : Option Policy := do
  match ← record? fieldNames d with
  | [some lifetime, some refresh] =>
    return ⟨← Duration.ofDocument? lifetime, ← Duration.ofDocument? refresh⟩
  | _ => none

/-- The record of a policy. -/
def toDocument (p : Policy) : Document :=
  ofFields [("lifetime", some p.lifetime.toDocument), ("refresh", some p.refresh.toDocument)]

end Policy

namespace Definition

/-- The names of the fields of a definition. -/
def fieldNames : List String :=
  ["signerSecret", "signerConfig", "certBundleConfigmap", "targetSecret", "targetConfig",
    "targetService", "targetUser"]

/-- The value of an optional field. -/
def optional? {α : Type} (read : Document → Option α) : Option Document → Option (Option α)
  | none => some none
  | some d => asOptional? read d

/-- The definition of a record. -/
def ofDocument? (d : Document) : Option Definition := do
  match ← record? fieldNames d with
  | [some signer, some signerPolicy, bundle, target, targetPolicy, service, user] =>
    return {
      signer := ← ResourceRef.ofDocument? signer
      signerPolicy := ← Policy.ofDocument? signerPolicy
      bundle := ← optional? ResourceRef.ofDocument? bundle
      target := ← optional? ResourceRef.ofDocument? target
      targetPolicy := ← optional? Policy.ofDocument? targetPolicy
      service := ← optional? Document.asText? service
      user := ← optional? Document.asText? user }
  | _ => none

/-- The record of a definition, without the fields that are not set. -/
def toDocument (d : Definition) : Document :=
  ofFields [
    ("signerSecret", some d.signer.toDocument),
    ("signerConfig", some d.signerPolicy.toDocument),
    ("certBundleConfigmap", d.bundle.map ResourceRef.toDocument),
    ("targetSecret", d.target.map ResourceRef.toDocument),
    ("targetConfig", d.targetPolicy.map Policy.toDocument),
    ("targetService", d.service.map .text),
    ("targetUser", d.user.map .text)]

/-- The definitions of a list of records. -/
def listOfDocument? (d : Document) : Option (List Definition) := do
  (← d.asList?).mapM ofDocument?

/-- The list of the records of definitions. -/
def listToDocument (definitions : List Definition) : Document :=
  .list (definitions.map toDocument)

end Definition

end CertKeeper
