import CertKeeper.Proofs.Certificate.Requested
import CertKeeper.Proofs.Cluster.Pair
import CertKeeper.Proofs.Rotation.Outcome

/-!
# Usable key pairs

An authority is `Usable` if its private key belongs to its certificate: then every leaf that it signs is
verified by the certificate (`Authority.verifies_iff`). A signer that is made anew is usable, whatever its
secret held before. One that is kept was loaded from the secret, and loading a private key does not
compare it with the certificate. So `SignerRequest.ensure` gives a usable authority unless the copy of
the secret holds the certificate of an authority beside the private key of another key pair
(`SignerRequest.usable_unless_unpaired`), and no leaf that is signed by what it gives then is verified by
the certificate.
-/

namespace CertKeeper

namespace Authority

variable {ca : Authority} {commonName : String} {now : Instant} {lifetime : Duration} {v : Validity}
variable {request : LeafRequest} {issued : IssuedCertificate} {seed : Nat}

/-- The certificate of an authority verifies a leaf. -/
def Verifies (ca : Authority) (certPem : String) : Prop :=
  ∃ leaf cert, certificate? certPem = some leaf ∧ certificate? ca.certPem = some cert
    ∧ leaf.isSignedBy cert.publicKey

/-- The private key of an authority belongs to its certificate, and the certificate verifies all that is
signed with the key. -/
structure Usable (ca : Authority) : Prop where
  keyMatches : keyMatches? ca.certPem ca.keyPem = some true
  verifies : ∀ request now lifetime seed issued,
    ca.sign request now lifetime (KeyPair.generate seed) = .ok issued → ca.Verifies issued.certPem

/-- The certificate of an authority verifies what the authority signs if the key belongs to it. -/
theorem verifies_iff (h : ca.sign request now lifetime (KeyPair.generate seed) = .ok issued) :
  ca.Verifies issued.certPem ↔ keyMatches? ca.certPem ca.keyPem = some true
  := by
  obtain ⟨commonName, v, signer, cert, name, c, hprepare, hc, -, hleaf, -⟩ := exists_leaf_of_sign h
  obtain ⟨-, -, -, hsigner⟩ := prepare_eq_ok hprepare
  obtain ⟨hkey, hcert, -⟩ := signer_eq_ok hsigner
  have hsigned : c.isSignedBy cert.publicKey ↔ signer.publicKey = cert.publicKey := by
    rw [hc, Certificate.isSignedBy_leaf]
  have hmatches : keyMatches? ca.certPem ca.keyPem
      = some (decide (signer.publicKey = cert.publicKey)) := by
    simp [keyMatches?, hkey, hcert]
  rw [hmatches, Option.some.injEq, decide_eq_true_iff, ← hsigned]
  constructor
  · rintro ⟨c', cert', hleaf', hcert', hverified⟩
    rw [hleaf] at hleaf'
    rw [hcert] at hcert'
    cases hleaf'
    cases hcert'
    apply hverified
  · intro hverified
    exact ⟨c, cert, hleaf, hcert, hverified⟩

theorem usable_of_keyMatches? (h : keyMatches? ca.certPem ca.keyPem = some true) :
  ca.Usable
  := by
  refine ⟨h, ?_⟩
  intro request now lifetime seed issued hsign
  apply (verifies_iff hsign).mpr h

/-- Of an authority that was loaded it is known whether the key belongs to the certificate. -/
theorem Loaded.keyMatches? (h : ca.Loaded) :
  ∃ b, keyMatches? ca.certPem ca.keyPem = some b
  := by
  obtain ⟨key, hkey⟩ := Option.isSome_iff_exists.mp h.key
  obtain ⟨bytes, hfirst, hbytes⟩ := h.genuine.first_pem
  obtain ⟨cert, hcert⟩ : ∃ cert, certificate? ca.certPem = some cert := by
    obtain ⟨info, hinfo, -⟩ := bind_eq_ok.mp hbytes
    unfold CertificateInfo.ofOctets at hinfo
    split at hinfo
    · cases hinfo
    · rename_i cert hread
      refine ⟨cert, ?_⟩
      rw [certificate?, show Pem.first ca.certPem = some ⟨certificateTag, bytes⟩ from hfirst,
        Option.bind_some]
      apply hread
  simp [Authority.keyMatches?, hkey, hcert]

end Authority

/-- A copy of a secret holds the certificate of an authority beside the private key of another key pair,
and none of it is due. -/
structure Secret.Unpaired (refresh : Duration) (now : Instant) (ca : Authority) (s : Secret) : Prop where
  authority : s.authority = .ok ca
  keyMatches : Authority.keyMatches? ca.certPem ca.keyPem = some false
  due? : s.metadata.due? refresh now = .ok none

namespace SignerRequest

variable {r : SignerRequest} {ca : Authority} {w w' : World}

/-- A new signer is usable. -/
theorem Issues.usable {named : Instant} (h : r.Issues named w ca) :
  ca.Usable
  := by
  obtain ⟨v, hv, hca⟩ := h
  apply Authority.usable_of_keyMatches?
  apply (Authority.generate_eq_ok hv hca).1.keyMatches?

/-- A signer that is kept has the key pair of the copy, which may be one that is not usable. -/
theorem usable_or_unpaired {copy : Option Secret} {now : Instant}
    (h : r.check (copy.getD (Secret.new r.ref)) now = .ok (.ok ca)) :
  ca.Usable ∨ ∃ s : Secret, copy = some s ∧ s.Unpaired r.policy.refresh now ca
  := by
  obtain ⟨hca, hdue⟩ := check_eq_ok_ok.mp h
  obtain ⟨b, hb⟩ := (Secret.loaded_of_authority hca).keyMatches?
  cases b with
  | true => exact .inl (Authority.usable_of_keyMatches? hb)
  | false =>
    cases copy with
    | none => cases hca
    | some s => exact .inr ⟨s, rfl, hca, hb, hdue⟩

/-- What a signer comes to is a usable authority, unless the copy of its secret holds the certificate of an
authority beside the private key of another key pair. Then it is the authority of the copy, nothing is
written, and no leaf that it signs is verified by its certificate. -/
theorem usable_unless_unpaired (h : World.run r.ensure w = (.ok ca, w')) :
  ca.Usable ∨ (∃ s : Secret, World.run (Procedure.current .secret r.known r.ref) w = (.ok (some s), w')
      ∧ s.Unpaired r.policy.refresh w'.clock ca)
    ∧ ∀ request now lifetime seed issued,
      ca.sign request now lifetime (KeyPair.generate seed) = .ok issued → ¬ ca.Verifies issued.certPem
  := by
  obtain ⟨copy, hcopy, hcheck⟩ | ⟨-, hissues, -⟩ := (leads_ensure r w).of_run h
  · rw [← (World.frame_of_current hcopy).1] at hcheck
    obtain husable | ⟨s, rfl, hunpaired⟩ := usable_or_unpaired hcheck
    · exact .inl husable
    · refine .inr ⟨⟨s, hcopy, hunpaired⟩, ?_⟩
      intro request now lifetime seed issued hsign hverified
      rw [Authority.verifies_iff hsign, hunpaired.keyMatches] at hverified
      cases hverified
  · exact .inl hissues.usable

/-- A signer that is known and passes its check is kept. -/
theorem run_ensure_kept {s : Secret} (hknown : r.known = some s)
    (hcheck : r.check s w.clock = .ok (.ok ca)) :
  World.run r.ensure w = (.ok ca, w)
  := by
  rw [ensure_eq hknown, World.run_bind]
  show World.run (Procedure.ofComputation (r.check s w.clock) >>= _) w = _
  rw [hcheck]
  rfl

/-- A certificate beside the private key of the key pair that was made next is taken for a signer. -/
theorem unpaired_kept :
  ∃ (r : SignerRequest) (w : World) (ca : Authority), World.run r.ensure w = (.ok ca, w)
    ∧ (∃ s : Secret, r.known = some s ∧ s.Unpaired r.policy.refresh w.clock ca)
    ∧ ∀ request now lifetime seed issued,
      ca.sign request now lifetime (KeyPair.generate seed) = .ok issued → ¬ ca.Verifies issued.certPem
  := by
  obtain ⟨policy, hpolicy⟩ : ∃ policy : Policy,
      policy = ⟨⟨3600 * nanosPerSecond, by decide⟩, ⟨1800 * nanosPerSecond, by decide⟩⟩ := ⟨_, rfl⟩
  have hpossible : Validity.Possible (.ofSeconds 0) policy.lifetime := by
    rw [hpolicy]
    exact Validity.possible_ofSeconds (by decide)
  have hlifetime : 2 ≤ policy.lifetime.seconds ∧ nanosPerSecond ≤ policy.refresh.nanos := by
    rw [hpolicy]
    decide
  obtain ⟨v, hv⟩ : ∃ v, Validity.starting _ _ = .ok v := ⟨_, Validity.starting_eq hpossible⟩
  obtain ⟨made, hmade⟩ : ∃ ca, Authority.generate "pki_signer@0" v (KeyPair.generate 0) = .ok ca := by
    apply Authority.exists_generate_of_size hv
    decide
  obtain ⟨hloaded, hinfo, hsigner⟩ := Authority.of_generate hv hmade
  obtain ⟨-, hcert, -⟩ := Authority.signer_eq_ok hsigner
  obtain ⟨ca, hca⟩ : ∃ ca : Authority, ca = ⟨made.certPem, (KeyPair.generate 1).pem, made.info⟩ := ⟨_, rfl⟩
  have hmixed : ca.Loaded := by
    rw [hca]
    refine ⟨hloaded.genuine, ?_, hloaded.isAuthority⟩
    rw [KeyPair.ofPem?_generate]
    rfl
  have hmatches : Authority.keyMatches? ca.certPem ca.keyPem = some false := by
    have hkeys : (KeyPair.generate 1).key.publicKey ≠ (KeyPair.generate 0).key.publicKey := by
      decide +kernel
    simp [Authority.keyMatches?, hca, KeyPair.ofPem?_generate, hcert, Certificate.selfSigned, hkeys]
  obtain ⟨s, hs⟩ : ∃ s, s = (Secret.new ⟨"pki", "signer"⟩).withKeyPair ca.certPem ca.keyPem ca.info :=
    ⟨_, rfl⟩
  obtain ⟨r, hr⟩ : ∃ r : SignerRequest, r = ⟨⟨"pki", "signer"⟩, policy, some s⟩ := ⟨_, rfl⟩
  obtain ⟨w, hw⟩ : ∃ w : World, w = { store := Store.new ["pki"], clock := .ofSeconds 0 } := ⟨_, rfl⟩
  have hcheck : r.check s w.clock = .ok (.ok ca) := by
    rw [hr, hw, hs]
    apply check_withKeyPair hmixed hv _ _ hlifetime.1 hlifetime.2
    · rw [hca, hinfo]
    · rw [hca, hinfo]
  have hknown : r.known = some s := by
    rw [hr]
  have hrun := run_ensure_kept hknown hcheck
  obtain husable | ⟨⟨s', hcopy, hunpaired⟩, hunverified⟩ := usable_unless_unpaired hrun
  · cases hmatches.symm.trans husable.keyMatches
  · rw [hknown] at hcopy
    cases hcopy
    exact ⟨r, w, ca, hrun, ⟨s, hknown, hunpaired⟩, hunverified⟩

end SignerRequest

end CertKeeper
