import CertKeeper.Definition
import CertKeeper.Manager.Caches
import CertKeeper.Rotation.Bundle
import CertKeeper.Rotation.Leaf

/-!
# Passes

A pass brings the objects of a list of definitions in line, one definition after the
other: the signer first, then the bundle, then the leaf certificate. Before it asks for
anything, `preflight` checks all definitions and that all their namespaces are watched. A
pass stops at the first error.

A `Step` of a pass is a request of its own or a `Stage`, which is left to whoever carries
the pass out. `Stage.perform` is the rotation, and `Manager.sync` is a pass with it.
-/

namespace CertKeeper

/-- A part of the work of a pass. -/
inductive Stage where
  | signer (request : SignerRequest)
  | bundle (ref : ResourceRef) (ca : Authority)
  | leaf (request : LeafStage) (ca : Authority) (bundle : List TrustedCertificate)

/-- What a stage comes to. -/
@[reducible]
def Stage.Answer : Stage → Type
  | signer _ => Authority
  | bundle _ _ => List TrustedCertificate
  | leaf _ _ _ => Unit

/-- What a pass asks for. -/
inductive Step where
  | request (r : Request)
  | stage (s : Stage)

/-- What a pass is told. -/
@[reducible]
def Step.Answer : Step → Type
  | request r => r.Answer
  | stage s => Except Stop s.Answer

/-- The work of a pass, over the steps that it takes. -/
abbrev PassM (α : Type) := ExceptT Stop (Program Step.Answer) α

namespace PassM

variable {α : Type}

/-- Do the work of a procedure. -/
def procedure (p : Procedure α) : PassM α :=
  ExceptT.mk (p.run.expand (fun r => Program.perform (Step.request r)))

/-- Leave a stage to the surroundings. -/
def stage (s : Stage) : PassM s.Answer :=
  ExceptT.mk (Program.perform (Step.stage s))

end PassM

namespace Manager

/-- A definition with the stages to run for it. -/
abbrev Plan := Definition × Stages

/-- The stages of a definition, all of whose namespaces are watched. -/
def plan (watched : NameSet) (d : Definition) : Except Error Plan := do
  let stages ← d.stages.mapError .invalidDefinition
  d.namespaces.forM (checkWatched watched)
  return (d, stages)

/-- The plans of a list of definitions. -/
def preflight (watched : NameSet) (definitions : List Definition) : Except Error (List Plan) :=
  definitions.mapM (plan watched)

/-- The secret as the cache has it, or a new one without values. -/
def ensureSecret (ref : ResourceRef) : Procedure Secret := do
  match ← Procedure.cached .secret ref with
  | some secret => return secret
  | none =>
    match ← Procedure.ask (.create .secret ref.ns ⟨{ name := ref.name }, {}⟩) with
    | .ok secret => return secret
    | .error e => if e.isAlreadyExists then Procedure.get .secret ref else Procedure.fail e

/-- The secret with a policy recorded on it in the store. -/
def ensurePolicy (secret : Secret) (ref : ResourceRef) (policy : Policy) : Procedure Secret := do
  match secret.withFingerprint? policy.fingerprint (← Procedure.clock) with
  | none => return secret
  | some updated => Procedure.update .secret ref.ns updated

/-- The secret of a stage, with the policy of the stage recorded on it. -/
def prepareSecret (watched : NameSet) (ref : ResourceRef) (policy : Policy) : Procedure Secret := do
  Procedure.ofResult (checkWatched watched ref.ns)
  let secret ← ensureSecret ref
  ensurePolicy secret ref policy

/-- Run the signer stage of a definition. -/
def ensureSigner (watched : NameSet) (d : Definition) : PassM Authority := do
  let secret ← PassM.procedure (prepareSecret watched d.signer d.signerPolicy)
  PassM.stage (.signer ⟨d.signer, d.signerPolicy, some secret⟩)

/-- Run the bundle stage of a definition. -/
def ensureBundle (watched : NameSet) (bundle : ResourceRef) (ca : Authority) :
    PassM (List TrustedCertificate) := do
  PassM.procedure (Procedure.ofResult (checkWatched watched bundle.ns))
  PassM.stage (.bundle bundle ca)

/-- The request for the certificate of a leaf. -/
def leafRequest (leaf : Leaf) : LeafRequest :=
  match leaf.identity with
  | .service service => .serving (serviceHostnames service leaf.secret.ns)
  | .user user => .client user

/-- Run the leaf stage of a definition. -/
def ensureLeaf (watched : NameSet) (leaf : Leaf) (ca : Authority) (bundle : List TrustedCertificate) :
    PassM Unit := do
  let secret ← PassM.procedure (prepareSecret watched leaf.secret leaf.policy)
  PassM.stage (.leaf ⟨leaf.secret, leaf.policy, leafRequest leaf, some secret⟩ ca bundle)

/-- Run the stages of a definition. -/
def runPlan (watched : NameSet) (p : Plan) : PassM Unit := do
  let ca ← ensureSigner watched p.1
  match p.2 with
  | .signer => return ()
  | .signerAndBundle bundle =>
    let _ ← ensureBundle watched bundle ca
  | .full bundle leaf =>
    let trusted ← ensureBundle watched bundle ca
    ensureLeaf watched leaf ca trusted

/-- A pass over a list of definitions. -/
def pass (watched : NameSet) (definitions : List Definition) : PassM Unit := do
  let plans ← PassM.procedure (Procedure.ofResult (preflight watched definitions))
  plans.forM (runPlan watched)

end Manager

/-- The rotation that a stage stands for. -/
def Stage.perform : (s : Stage) → Procedure s.Answer
  | signer request => request.ensure
  | bundle ref ca => Bundle.ensure ref ca
  | leaf request ca trusted => request.ensure ca trusted

/-- A step with its stage carried out as the rotation. -/
def Step.perform : (s : Step) → Program Request.Answer s.Answer
  | request r => Program.perform r
  | stage s => s.perform.run

/-- A pass over a list of definitions with the rotation. -/
def Manager.sync (watched : NameSet) (definitions : List Definition) : Procedure Unit :=
  ExceptT.mk ((pass watched definitions).run.expand Step.perform)

end CertKeeper
