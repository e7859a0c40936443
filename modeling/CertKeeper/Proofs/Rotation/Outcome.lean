import CertKeeper.Proofs.Cluster.Landing
import CertKeeper.Proofs.Rotation.Leaf

/-!
# Outcomes of stages

A stage that goes through has done one of two things, whatever the world was like. Either it keeps the
certificate of the copy that it found, and has done nothing but look for the copy, or it has issued a
certificate at the time of the clock with the next key pair of the supply and has stored it
(`SignerRequest.leads_ensure`, `LeafStage.leads_ensure`).
-/

namespace CertKeeper

/-- Looking for a copy of a secret leaves the clock and the supply of keys alone. -/
theorem World.frame_of_current {known copy : Option Secret} {ref : ResourceRef} {w w' : World}
    (h : World.run (Procedure.current .secret known ref) w = (.ok copy, w')) :
  w'.clock = w.clock ∧ w'.keys = w.keys
  := by
  have hclock := World.clock_run (Procedure.current .secret known ref) w
  have hkeys := (Procedure.draws_current known ref).keys_run w
  rw [h] at hclock hkeys
  exact ⟨hclock, Nat.le_antisymm hkeys.2 hkeys.1⟩

/-! ### Signers -/

namespace SignerRequest

variable {r : SignerRequest} {ca : Authority} {w w' : World}

/-- The authority that a stage makes in a world, under the name of an instant. -/
def Issues (r : SignerRequest) (named : Instant) (w : World) (ca : Authority) : Prop :=
  ∃ v, Validity.starting w.clock r.policy.lifetime = .ok v
    ∧ Authority.generate (r.commonName named) v (KeyPair.generate w.keys) = .ok ca

/-- A rotation stores the authority that it has made. -/
theorem leads_rotate (r : SignerRequest) (s : Secret) (now : Instant) (reason : Reason) (w : World) :
  (r.rotate s now reason).Leads
    (fun ca w' => w.keys < w'.keys ∧ r.Issues now w ca
      ∧ ∃ stored, w'.Landed r.ref.ns (s.withKeyPair ca.certPem ca.keyPem ca.info) stored)
    (fun _ _ => True) w
  := by
  unfold rotate
  apply Procedure.safe_bind
  apply Procedure.leads_clock
  apply Procedure.safe_bind
  apply Procedure.safe_ofComputation
  · intro v hv
    apply Procedure.safe_bind
    apply Procedure.safe_ask
    rintro _ w₁ hkey
    obtain ⟨rfl, rfl⟩ := Prod.mk.inj hkey
    constructor
    · trivial
    · apply Procedure.safe_bind
      apply Procedure.safe_ofResult
      · intro ca hca
        apply Procedure.safe_bind
        apply ((Procedure.leads_store_landed r.ref.ns _ _).and (Procedure.uncached_store _ _).draws.leads).mono
        · rintro stored w₂ ⟨hlanded, hdrawn, -⟩
          apply Procedure.safe_bind
          apply Procedure.leads_publish_store
          intro w₃ hstore hkeys
          apply Procedure.safe_pure
          refine ⟨?_, ⟨v, hv, hca⟩, stored, hlanded.of_store hstore⟩
          rw [hkeys]
          apply hdrawn
        · intro _ _ _
          trivial
      · intro _ _
        trivial
  · intro _ _
    trivial

/-- A stage keeps the authority of the copy that it found, or it has stored the one that it has made. -/
theorem leads_ensure (r : SignerRequest) (w : World) :
  r.ensure.Leads
    (fun ca w' =>
      (∃ copy, World.run (Procedure.current .secret r.known r.ref) w = (.ok copy, w')
        ∧ r.check (copy.getD (Secret.new r.ref)) w.clock = .ok (.ok ca))
      ∨ w.keys < w'.keys ∧ r.Issues w.clock w ca ∧ ∃ (s : Secret) (stored : Secret),
        w'.Landed r.ref.ns (s.withKeyPair ca.certPem ca.keyPem ca.info) stored)
    (fun _ _ => True) w
  := by
  unfold ensure
  apply Procedure.safe_bind
  apply (Procedure.leads_run _).mono
  · intro copy w₁ hcopy
    obtain ⟨hclock, hkeys⟩ := World.frame_of_current hcopy
    apply Procedure.safe_bind
    apply Procedure.leads_clock
    rw [hclock]
    apply Procedure.safe_bind
    apply Procedure.safe_ofComputation
    · intro outcome hcheck
      cases outcome with
      | ok ca =>
        apply Procedure.safe_pure
        exact .inl ⟨copy, hcopy, hcheck⟩
      | error reason =>
        apply (leads_rotate r _ _ reason w₁).mono
        · rintro ca w₂ ⟨hdrawn, hissues, stored, hlanded⟩
          rw [Issues, hclock, hkeys] at hissues
          rw [hkeys] at hdrawn
          exact .inr ⟨hdrawn, hissues, _, stored, hlanded⟩
        · intro _ _ _
          trivial
    · intro _ _
      trivial
  · intro _ _ _
    trivial

end SignerRequest

/-! ### Leaves -/

namespace LeafStage

variable {r : LeafStage} {ca : Authority} {w w' : World}

/-- The certificate that a stage issues in a world. -/
def Issues (r : LeafStage) (ca : Authority) (w : World) (issued : IssuedCertificate) : Prop :=
  ca.sign r.request w.clock r.policy.lifetime (KeyPair.generate w.keys) = .ok issued

/-- A rotation stores the certificate that it has issued. -/
theorem leads_rotate (r : LeafStage) (s : Secret) (ca : Authority) (bundle : List TrustedCertificate)
    (reason : Reason) (w : World) :
  (r.rotate s ca bundle reason).Leads
    (fun _ w' => w.keys < w'.keys ∧ ∃ issued, r.Issues ca w issued
      ∧ ∃ stored, w'.Landed r.ref.ns (r.filled s ca bundle issued) stored)
    (fun _ _ => True) w
  := by
  unfold rotate issue
  apply Procedure.safe_bind
  apply Procedure.safe_bind
  apply Procedure.leads_clock
  apply Procedure.safe_bind
  apply Procedure.safe_ofComputation
  · intro _ _
    apply Procedure.safe_bind
    apply Procedure.safe_ask
    rintro _ w₁ hkey
    obtain ⟨rfl, rfl⟩ := Prod.mk.inj hkey
    constructor
    · trivial
    · apply Procedure.safe_ofComputation
      · intro issued hissued
        apply Procedure.safe_bind
        apply ((Procedure.leads_store_landed r.ref.ns _ _).and (Procedure.uncached_store _ _).draws.leads).mono
        · rintro stored w₂ ⟨hlanded, hdrawn, -⟩
          apply Procedure.leads_publish_store
          intro w₃ hstore hkeys
          refine ⟨?_, issued, hissued, stored, hlanded.of_store hstore⟩
          rw [hkeys]
          apply hdrawn
        · intro _ _ _
          trivial
      · intro _ _
        trivial
  · intro _ _
    trivial

/-- What a stage leaves behind: the copy that it found, if it keeps the certificate of that copy, or what
it has stored, which is that copy with the certificate that it has issued. -/
inductive Leaves (r : LeafStage) (ca : Authority) (bundle : List TrustedCertificate) (w w' : World)
    (s : Secret) : Prop where
  | kept (found : World.run (Procedure.current .secret r.known r.ref) w = (.ok (some s), w'))
      (serves : r.reason? s ca w.clock = .ok none)
  | stored {copy : Option Secret} {w₁ : World} {issued : IssuedCertificate}
      (found : World.run (Procedure.current .secret r.known r.ref) w = (.ok copy, w₁))
      (drawn : w.keys < w'.keys) (issues : r.Issues ca w issued)
      (landed : w'.Landed r.ref.ns (r.filled (copy.getD (Secret.new r.ref)) ca bundle issued) s)

/-- If the copy that a stage found passes its check, there is one. -/
theorem exists_copy_of_reason? {copy : Option Secret}
    (h : r.reason? (copy.getD (Secret.new r.ref)) ca w.clock = .ok none) :
  ∃ s, copy = some s ∧ r.reason? s ca w.clock = .ok none
  := by
  cases copy with
  | some s => exact ⟨s, rfl, h⟩
  | none =>
    have hmismatch := (of_reason?_eq_none h).1
    rw [Option.getD_none, mismatch?_of_blank (fun _ => rfl)] at hmismatch
    cases hmismatch

/-- A stage keeps the certificate of the copy that it found, or it has stored the one that it has
issued. -/
theorem leads_ensure (r : LeafStage) (ca : Authority) (bundle : List TrustedCertificate) (w : World) :
  (r.ensure ca bundle).Leads (fun _ w' => ∃ s, r.Leaves ca bundle w w' s) (fun _ _ => True) w
  := by
  unfold ensure
  apply Procedure.safe_bind
  apply (Procedure.leads_run _).mono
  · intro copy w₁ hcopy
    obtain ⟨hclock, hkeys⟩ := World.frame_of_current hcopy
    apply Procedure.safe_bind
    apply Procedure.leads_clock
    rw [hclock]
    apply Procedure.safe_bind
    apply Procedure.safe_ofComputation
    · intro reason? hreason
      cases reason? with
      | none =>
        apply Procedure.safe_pure
        obtain ⟨s, rfl, hserves⟩ := exists_copy_of_reason? hreason
        exact ⟨s, .kept hcopy hserves⟩
      | some reason =>
        apply (leads_rotate r _ ca bundle reason w₁).mono
        · rintro _ w₂ ⟨hdrawn, issued, hissues, stored, hlanded⟩
          rw [Issues, hclock, hkeys] at hissues
          rw [hkeys] at hdrawn
          exact ⟨stored, .stored hcopy hdrawn hissues hlanded⟩
        · intro _ _ _
          trivial
    · intro _ _
      trivial
  · intro _ _ _
    trivial

/-- A stage that has taken a key pair has stored what it leaves behind. -/
theorem Leaves.of_drawn {bundle : List TrustedCertificate} {s : Secret}
    (h : r.Leaves ca bundle w w' s) (hdrawn : w'.keys ≠ w.keys) :
  ∃ issued, r.Issues ca w issued ∧ ∃ found, w'.Landed r.ref.ns (r.filled found ca bundle issued) s
  := by
  cases h with
  | kept hfound _ => exact absurd (World.frame_of_current hfound).2 hdrawn
  | stored _ _ hissues hlanded => exact ⟨_, hissues, _, hlanded⟩

end LeafStage

end CertKeeper
