import CertKeeper.Error
import CertKeeper.Policy

/-!
# Definitions

A `Definition` asks for a signer, and optionally for a bundle that publishes the signer's
certificate and for a leaf certificate signed by it. `Definition.stages` checks it and
says which of the three are to be kept, and `Definition.namespaces` lists the namespaces
that these are in. A leaf without a bundle is never reached, so it is not checked.
-/

namespace CertKeeper

/-- A signer, optionally with a bundle and a leaf certificate. -/
structure Definition where
  signer : ResourceRef
  signerPolicy : Policy
  bundle : Option ResourceRef
  target : Option ResourceRef
  targetPolicy : Option Policy
  service : Option String
  user : Option String
  deriving DecidableEq

/-- What a leaf certificate is bound to. -/
inductive Identity where
  | service (name : String)
  | user (name : String)
  deriving DecidableEq

/-- A leaf certificate to be kept in a secret. -/
structure Leaf where
  secret : ResourceRef
  policy : Policy
  identity : Identity
  deriving DecidableEq

/-- What is to be kept for a definition. -/
inductive Stages where
  | signer
  | signerAndBundle (bundle : ResourceRef)
  | full (bundle : ResourceRef) (leaf : Leaf)
  deriving DecidableEq

namespace Definition

/-- The reference has a namespace and a name. -/
def checkRef (field : String) (ref : ResourceRef) : Except DefinitionFault Unit :=
  if ref.ns.isEmpty || ref.name.isEmpty then .error (.incompleteRef field ref) else .ok ()

/-- What the leaf certificate in `secret` is bound to. -/
def identity (d : Definition) (secret : ResourceRef) : Except DefinitionFault Identity :=
  match d.service, d.user with
  | some _, some _ => .error (.serviceAndUser secret)
  | some service, none => if service.isEmpty then .error (.noIdentity secret) else .ok (.service service)
  | none, some user => if user.isEmpty then .error (.noIdentity secret) else .ok (.user user)
  | none, none => .error (.noIdentity secret)

/-- What is to be kept for a definition, if it is a valid one. -/
def stages (d : Definition) : Except DefinitionFault Stages := do
  checkRef "signerSecret" d.signer
  match d.bundle with
  | none => return .signer
  | some bundle =>
    checkRef "certBundleConfigmap" bundle
    match d.target with
    | none => return .signerAndBundle bundle
    | some secret =>
      checkRef "targetSecret" secret
      match d.targetPolicy with
      | none => throw (.noTargetPolicy secret)
      | some policy =>
        let identity ← d.identity secret
        return .full bundle ⟨secret, policy, identity⟩

/-- The namespaces of the objects that are kept for a definition. -/
def namespaces (d : Definition) : List String :=
  match d.bundle, d.target with
  | none, _ => [d.signer.ns]
  | some bundle, none => [d.signer.ns, bundle.ns]
  | some bundle, some target => [d.signer.ns, bundle.ns, target.ns]

/-- The first fault of a list of definitions. -/
def validate : List Definition → Except DefinitionFault Unit
  | [] => .ok ()
  | d :: rest => do
    let _ ← d.stages
    validate rest

end Definition

end CertKeeper
