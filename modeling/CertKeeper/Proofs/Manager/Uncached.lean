import CertKeeper.Proofs.Cluster.Uncached
import CertKeeper.Proofs.Manager.Pass
import CertKeeper.Proofs.Rotation.Bundle
import CertKeeper.Proofs.Rotation.Leaf
import CertKeeper.Proofs.Rotation.Signer

/-!
# What stages ask for

A stage looks into a cache once, for its first copy of the object. What it does with the copy asks no
cache any more. A signer and a leaf take one new key each at most, so the stages of a definition take
two (`Manager.draws_planStages`).
-/

namespace CertKeeper

open Procedure

/-- The stage of a signer whose secret is known asks no cache, and makes one key pair at most. -/
theorem SignerRequest.uncached_ensure {r : SignerRequest} {s : Secret} (hknown : r.known = some s) :
  r.ensure.Uncached 1
  := by
  rw [ensure_eq hknown]
  apply uncached_clock.bind
  intro now
  apply (frugal_ofComputation _).bind
  intro checked
  split
  · apply frugal_pure
  · apply uncached_clock.bind
    intro issued
    apply (frugal_ofComputation _).bind
    intro validity
    apply uncached_newKey.bind
    intro key
    apply (frugal_ofResult _).bind
    intro ca
    apply (uncached_store _ _).bind
    intro stored
    apply (uncached_publish _ _ _ _).bind
    intro _
    apply frugal_pure

namespace Bundle

variable (ref : ResourceRef) (ca : Authority)

/-- The publication of a copy of a bundle asks no cache. -/
theorem uncached_publish (copy : Option ConfigMap) :
  (publish ref ca copy).Uncached 0
  := by
  have hreported : ∀ (certs : List TrustedCertificate) (stored : ConfigMap) (reason action note : String),
      (do
        Procedure.publish stored reason action note
        return certs : Procedure (List TrustedCertificate)).Uncached 0 := by
    intro certs stored reason action note
    apply (Procedure.uncached_publish _ _ _ _).bind
    intro _
    apply frugal_pure
  apply uncached_clock.bind
  intro now
  dsimp only
  split
  · apply frugal_pure
  · split
    · apply (uncached_update _ _).bind
      intro stored
      apply hreported
    · apply (uncached_create _ _).bind
      intro stored
      apply hreported

/-- A second attempt reads the bundle from the store. -/
theorem uncached_retry (stop : Stop) :
  (retry ref ca stop).Uncached 0
  := by
  unfold retry
  split
  · split
    · apply (uncached_find _).bind
      intro live
      apply uncached_publish
    · apply frugal_throw
  · apply frugal_throw

/-- With its second attempt the publication asks no cache. -/
theorem uncached_attempt (copy : Option ConfigMap) :
  (tryCatch (publish ref ca copy) (retry ref ca)).Uncached 0
  := (uncached_publish ref ca copy).tryCatch (uncached_retry ref ca)

end Bundle

/-- The stage of a leaf whose secret is known asks no cache, and makes one key pair at most. -/
theorem LeafStage.uncached_ensure {r : LeafStage} {s : Secret} (hknown : r.known = some s) (ca : Authority)
    (trusted : List TrustedCertificate) :
  (r.ensure ca trusted).Uncached 1
  := by
  have hissue : (r.issue ca).Uncached 1 := by
    apply uncached_clock.bind
    intro now
    apply (frugal_ofComputation _).bind
    intro _
    apply uncached_newKey.bind
    intro key
    apply frugal_ofComputation
  rw [ensure_eq hknown]
  apply uncached_clock.bind
  intro now
  apply (frugal_ofComputation _).bind
  intro reason
  split
  · apply frugal_pure
  · apply hissue.bind
    intro issued
    apply (uncached_store _ _).bind
    intro stored
    apply Procedure.uncached_publish

namespace Manager

/-- The creation of a secret asks no cache. -/
theorem uncached_createSecret (ref : ResourceRef) :
  (createSecret ref).Uncached 0
  := by
  apply (frugal_ask id id).bind
  intro answer
  split
  · apply frugal_pure
  · split
    · apply uncached_get
    · apply frugal_throw

/-- Recording a policy asks no cache. -/
theorem uncached_ensurePolicy (secret : Secret) (ref : ResourceRef) (policy : Policy) :
  (ensurePolicy secret ref policy).Uncached 0
  := by
  apply uncached_clock.bind
  intro now
  split
  · apply frugal_pure
  · apply uncached_update

/-! ### Keys of a pass -/

variable {watched : NameSet}

theorem draws_prepareSecret (ref : ResourceRef) (policy : Policy) :
  (prepareSecret watched ref policy).Draws 0
  := by
  have hensure : (ensureSecret ref).Draws 0 := by
    rw [ensureSecret_eq]
    apply (draws_cached ref).bind
    intro copy
    split
    · apply frugal_pure
    · apply (uncached_createSecret ref).draws
  apply (frugal_ofResult _).bind
  intro _
  apply hensure.bind
  intro copy
  apply (uncached_ensurePolicy copy ref policy).draws

theorem draws_signerStage (d : Definition) :
  (signerStage watched d).Draws 1
  := by
  apply (draws_prepareSecret d.signer d.signerPolicy).bind
  intro copy
  apply (SignerRequest.uncached_ensure rfl).draws

theorem draws_bundleStage (bundle : ResourceRef) (ca : Authority) :
  (bundleStage watched bundle ca).Draws 0
  := by
  have hcurrent : (current .configMap none bundle).Draws 0 := by
    apply (draws_cached bundle).bind
    intro copy
    split
    · apply frugal_pure
    · apply (uncached_find bundle).draws
  apply (frugal_ofResult _).bind
  intro _
  rw [Bundle.ensure_eq]
  apply hcurrent.bind
  intro copy
  apply (Bundle.uncached_attempt bundle ca copy).draws

theorem draws_leafStage (leaf : Leaf) (ca : Authority) (trusted : List TrustedCertificate) :
  (leafStage watched leaf ca trusted).Draws 1
  := by
  apply (draws_prepareSecret leaf.secret leaf.policy).bind
  intro copy
  apply (LeafStage.uncached_ensure rfl ca trusted).draws

/-- The stages of a definition make two key pairs at most. -/
theorem draws_planStages (p : Plan) :
  (planStages watched p).Draws 2
  := by
  obtain ⟨d, stages⟩ := p
  apply (draws_signerStage d).bind
  intro ca
  cases stages with
  | signer => apply frugal_pure
  | signerAndBundle bundle =>
    apply (draws_bundleStage bundle ca).bind
    intro trusted
    apply frugal_pure
  | full bundle leaf =>
    apply (draws_bundleStage bundle ca).bind
    intro trusted
    apply draws_leafStage leaf ca trusted

end Manager

end CertKeeper
