import CertKeeper.Proofs.Certificate.Authority
import CertKeeper.Proofs.Rotation.Due
import CertKeeper.Rotation.Signer

/-!
# The authority of a signer

A secret with the texts of an authority is loaded as that authority
(`Secret.authority_of_texts`). So a signer that has just been rotated passes its own check
(`SignerRequest.check_withKeyPair`). `Authority.MadeFor` says of an authority that it was made
for a signer, which makes it sound.
-/

namespace CertKeeper

namespace Secret

variable {s s' : Secret} {ca : Authority}

/-- The texts of a key pair are read back. -/
theorem text?_withKeyPair (s : Secret) (certPem keyPem : String) (info : CertificateInfo)
    (key : String) :
  (s.withKeyPair certPem keyPem info).text? key
    = if key = EntryKey.privateKey then some keyPem
      else if key = EntryKey.certificate then some certPem else s.text? key
  := by
  rw [withKeyPair, withValidity, text?_annotate, text?_annotate, text?_withText, text?_withText]

theorem annotationAt?_withKeyPair (s : Secret) (certPem keyPem : String) (info : CertificateInfo)
    (name : String) :
  (s.withKeyPair certPem keyPem info).annotationAt? name = (s.withValidity info).annotationAt? name
  := rfl

/-- A new key pair leaves the annotations that are not about its validity. -/
theorem annotationAt?_withKeyPair_of_ne {name : String} (hnotBefore : name ≠ AnnotationKey.notBefore)
    (hnotAfter : name ≠ AnnotationKey.notAfter) (s : Secret) (certPem keyPem : String)
    (info : CertificateInfo) :
  (s.withKeyPair certPem keyPem info).annotationAt? name = s.annotationAt? name
  := by
  rw [annotationAt?_withKeyPair, withValidity, Object.annotationAt?_annotate, if_neg hnotAfter,
    Object.annotationAt?_annotate, if_neg hnotBefore]

/-- Storing a certificate leaves the record of the policy alone. -/
theorem policy_withKeyPair (s : Secret) (certPem keyPem : String) (info : CertificateInfo) :
  (s.withKeyPair certPem keyPem info).annotationAt? AnnotationKey.policy
    = s.annotationAt? AnnotationKey.policy
  := annotationAt?_withKeyPair_of_ne (by decide) (by decide) s certPem keyPem info

/-- The validity of a new certificate is recorded. -/
theorem records_withKeyPair {now : Instant} {lifetime : Duration} {v : Validity}
    {info : CertificateInfo} (hv : Validity.starting now lifetime = .ok v)
    (hnotBefore : info.notBefore = .ofSeconds v.notBefore)
    (hnotAfter : info.notAfter = .ofSeconds v.notAfter) (s : Secret) (certPem keyPem : String) :
  (s.withKeyPair certPem keyPem info).Records info
  := by
  rw [withKeyPair]
  apply records_withValidity hv hnotBefore hnotAfter

/-- The authority depends on the content only. -/
theorem authority_of_content (h : s'.content = s.content) :
  s'.authority = s.authority
  := by
  simp only [authority, required, text?_of_content h]

/-- A secret with the texts of an authority is loaded as that authority. -/
theorem authority_of_texts (hca : ca.Loaded) (hcert : s.text? EntryKey.certificate = some ca.certPem)
    (hkey : s.text? EntryKey.privateKey = some ca.keyPem) :
  s.authority = .ok ca
  := by
  simp only [authority, required, hcert, hkey, ok_bind]
  apply Authority.ofPem_self hca

theorem authority_withKeyPair (hca : ca.Loaded) (s : Secret) (info : CertificateInfo) :
  (s.withKeyPair ca.certPem ca.keyPem info).authority = .ok ca
  := by
  have hkeys : EntryKey.certificate ≠ EntryKey.privateKey := by decide
  apply authority_of_texts hca
  · rw [text?_withKeyPair, if_neg hkeys, if_pos rfl]
  · rw [text?_withKeyPair, if_pos rfl]

/-- A secret without a certificate has no authority. -/
theorem certificate_of_authority (h : s.authority = .ok ca) :
  (s.text? EntryKey.certificate).isSome
  := by
  simp only [authority, bind_eq_ok] at h
  obtain ⟨certPem, hcert, -⟩ := h
  unfold required at hcert
  split at hcert
  · cases hcert
  · rename_i text htext
    rw [htext]
    rfl

/-- An authority that was loaded from a secret. -/
theorem loaded_of_authority (h : s.authority = .ok ca) :
  ca.Loaded
  := by
  simp only [authority, bind_eq_ok] at h
  obtain ⟨certPem, -, keyPem, -, h⟩ := h
  apply (Authority.ofPem_eq_ok h).1

end Secret

namespace SignerRequest

variable {r : SignerRequest} {s : Secret} {now : Instant} {ca : Authority}

/-- Storing a secret does not change the outcome of its check. -/
theorem check_stamped (store : Store) (ns : String) :
  r.check (store.stamped ns s) now = r.check s now
  := by
  rw [check, check, Secret.authority_of_content (Object.content_stamped store ns s)]
  rfl

/-- A signer is kept if it can be loaded and is not due. -/
theorem check_eq_ok_ok :
  r.check s now = .ok (.ok ca)
    ↔ s.authority = .ok ca ∧ s.metadata.due? r.policy.refresh now = .ok none
  := by
  unfold check
  split
  · rename_i e he
    constructor
    · intro h
      cases h
    · rintro ⟨h, -⟩
      rw [he] at h
      cases h
  · rename_i ca' hca
    constructor
    · intro h
      obtain ⟨reason, hdue, h⟩ := bind_eq_ok.mp h
      cases reason with
      | some reason => cases h
      | none =>
        cases h
        exact ⟨hca, hdue⟩
    · rintro ⟨h, hdue⟩
      rw [hca] at h
      cases h
      rw [hdue]
      rfl

/-- A signer whose check stops has an authority with a recorded validity that leads beyond the
calendar. -/
theorem check_eq_error {stop : Stop} (h : r.check s now = .error stop) :
  ∃ ca, s.authority = .ok ca ∧ s.metadata.due? r.policy.refresh now = .error stop
  := by
  unfold check at h
  split at h
  · cases h
  · rename_i ca hca
    refine ⟨ca, hca, ?_⟩
    cases hdue : s.metadata.due? r.policy.refresh now with
    | error stop' =>
      rw [hdue] at h
      cases h
      rfl
    | ok reason =>
      rw [hdue] at h
      cases reason <;> cases h

/-- A signer that has just been rotated passes its check. -/
theorem check_withKeyPair {v : Validity} (hca : ca.Loaded)
    (hv : Validity.starting now r.policy.lifetime = .ok v)
    (hnotBefore : ca.info.notBefore = .ofSeconds v.notBefore)
    (hnotAfter : ca.info.notAfter = .ofSeconds v.notAfter)
    (hlifetime : 2 ≤ r.policy.lifetime.seconds) (hrefresh : nanosPerSecond ≤ r.policy.refresh.nanos)
    (s : Secret) :
  r.check (s.withKeyPair ca.certPem ca.keyPem ca.info) now = .ok (.ok ca)
  := by
  apply check_eq_ok_ok.mpr
  constructor
  · apply Secret.authority_withKeyPair hca
  · have hrecords := Secret.records_withKeyPair hv hnotBefore hnotAfter s ca.certPem ca.keyPem
    rw [hrecords.due?, hnotBefore, hnotAfter]
    apply Validity.due?_starting hv hlifetime hrefresh

/-- The stage of a secret that is known decides from that secret. -/
theorem ensure_eq (hknown : r.known = some s) :
  r.ensure = (do
    let now ← Procedure.clock
    match ← Procedure.ofComputation (r.check s now) with
    | .ok ca => return ca
    | .error reason => r.rotate s now reason)
  := by
  rw [ensure, hknown]
  rfl

/-- The name of a signer is not much longer than its place. -/
theorem utf8ByteSize_commonName_le (r : SignerRequest) {now : Instant}
    (hfrom : Validity.startOfYear 0 ≤ now.seconds) (hto : now.seconds < Validity.startOfYear 10000) :
  (r.commonName now).utf8ByteSize ≤ r.ref.ns.utf8ByteSize + r.ref.name.utf8ByteSize + 100
  := by
  rw [Validity.startOfYear_zero] at hfrom
  rw [Validity.startOfYear_tenThousand] at hto
  have hnumber := Decimal.utf8ByteSize_signed_le (n := now.seconds) (by omega) (by omega)
  have hunderscore : "_".utf8ByteSize = 1 := by decide
  have hat : "@".utf8ByteSize = 1 := by decide
  simp only [commonName, String.utf8ByteSize_append]
  omega

end SignerRequest

/-- An authority was made for a signer, under the name of a time that the clock has shown. -/
def Authority.MadeFor (shows : Instant → Prop) (ref : ResourceRef) (ca : Authority) : Prop :=
  ∃ (r : SignerRequest) (named issued : Instant) (lifetime : Duration) (v : Validity) (seed : Nat),
    r.ref = ref ∧ shows named ∧ ¬ issued.before named ∧ Validity.starting issued lifetime = .ok v
      ∧ Authority.generate (r.commonName named) v (KeyPair.generate seed) = .ok ca

theorem Authority.MadeFor.sound {shows : Instant → Prop} {ref : ResourceRef} {ca : Authority}
    (h : ca.MadeFor shows ref) :
  ca.Sound
  := by
  obtain ⟨r, named, issued, lifetime, v, seed, -, -, -, hv, hca⟩ := h
  apply (generate_eq_ok hv hca).1

end CertKeeper
