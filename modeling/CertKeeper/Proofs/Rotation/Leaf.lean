import CertKeeper.Proofs.Rotation.Signer
import CertKeeper.Rotation.Leaf

/-!
# The certificate of a leaf

`Secret.Holds` says that a secret holds a certificate with its key for a request, issued by the
first certificate that the secret says to trust. That is so once a leaf stage has filled the
secret (`LeafStage.holds_filled`), and the stage does not find a reason to do it again
(`LeafStage.reason?_filled`).
-/

namespace CertKeeper

/-- A secret holds a certificate for a request, with its key, and was told to trust the
certificate first that this one was issued by. -/
structure Secret.Holds (s : Secret) (request : LeafRequest) (first : TrustedCertificate)
    (info : CertificateInfo) (certPem keyPem : String) : Prop where
  certificate : s.text? EntryKey.certificate = some certPem
  privateKey : s.text? EntryKey.privateKey = some keyPem
  authority : LeafStage.publishedAuthority? s = some first
  keyMatches : Authority.keyMatches? certPem keyPem = some true
  servedBy : request.ServedBy info
  dated : info.Dated
  issued : Authority.Issued first.pem certPem info

namespace LeafStage

variable {r : LeafStage} {secret : Secret} {ca : Authority} {bundle : List TrustedCertificate}
variable {issued : IssuedCertificate} {now : Instant}

/-! ### What a filled secret says -/

/-- The secret with a new certificate, without its host names. -/
def attributed (secret : Secret) (ca : Authority) (bundle : List TrustedCertificate)
    (issued : IssuedCertificate) : Secret :=
  ((secret.withKeyPair issued.certPem issued.keyPem issued.info).withText EntryKey.authority
    (encodeBundle bundle)).annotate AnnotationKey.issuer ca.info.commonName

theorem filled_eq (r : LeafStage) (secret : Secret) (ca : Authority)
    (bundle : List TrustedCertificate) (issued : IssuedCertificate) :
  r.filled secret ca bundle issued
    = (hostnames? r.request).elim (attributed secret ca bundle issued)
      (fun hostnames => (attributed secret ca bundle issued).annotate AnnotationKey.hostnames hostnames)
  := by
  rw [filled]
  cases hostnames? r.request <;> rfl

@[simp]
theorem name_filled : (r.filled secret ca bundle issued).name = secret.name
  := by
  rw [filled_eq]
  cases hostnames? r.request <;> rfl

@[simp]
theorem version_filled : (r.filled secret ca bundle issued).version = secret.version
  := by
  rw [filled_eq]
  cases hostnames? r.request <;> rfl

theorem text?_filled (key : String) :
  (r.filled secret ca bundle issued).text? key
    = if key = EntryKey.authority then some (encodeBundle bundle)
      else (secret.withKeyPair issued.certPem issued.keyPem issued.info).text? key
  := by
  have hattributed : (attributed secret ca bundle issued).text? key
      = if key = EntryKey.authority then some (encodeBundle bundle)
        else (secret.withKeyPair issued.certPem issued.keyPem issued.info).text? key := by
    rw [attributed, Secret.text?_annotate, Secret.text?_withText]
  rw [filled_eq]
  cases hostnames? r.request with
  | none => apply hattributed
  | some hostnames =>
    rw [Option.elim_some, Secret.text?_annotate]
    apply hattributed

/-- The issuer and the host names are recorded beside what the annotations say. -/
theorem annotationAt?_filled {name : String} (hissuer : name ≠ AnnotationKey.issuer)
    (hhostnames : name ≠ AnnotationKey.hostnames) :
  (r.filled secret ca bundle issued).annotationAt? name
    = (secret.withValidity issued.info).annotationAt? name
  := by
  have hattributed : (attributed secret ca bundle issued).annotationAt? name
      = (secret.withValidity issued.info).annotationAt? name := by
    rw [attributed, Object.annotationAt?_annotate, if_neg hissuer, Secret.annotationAt?_withText,
      Secret.annotationAt?_withKeyPair]
  rw [filled_eq]
  cases hostnames? r.request with
  | none => apply hattributed
  | some hostnames =>
    rw [Option.elim_some, Object.annotationAt?_annotate, if_neg hhostnames]
    apply hattributed

theorem issuer_filled :
  (r.filled secret ca bundle issued).annotationAt? AnnotationKey.issuer = some ca.info.commonName
  := by
  have hkeys : AnnotationKey.issuer ≠ AnnotationKey.hostnames := by decide
  have hattributed : (attributed secret ca bundle issued).annotationAt? AnnotationKey.issuer
      = some ca.info.commonName := by
    rw [attributed, Object.annotationAt?_annotate, if_pos rfl]
  rw [filled_eq]
  cases hostnames? r.request with
  | none => apply hattributed
  | some hostnames =>
    rw [Option.elim_some, Object.annotationAt?_annotate, if_neg hkeys]
    apply hattributed

theorem hostnames_filled {hostnames : String} (h : hostnames? r.request = some hostnames) :
  (r.filled secret ca bundle issued).annotationAt? AnnotationKey.hostnames = some hostnames
  := by
  rw [filled_eq, h, Option.elim_some, Object.annotationAt?_annotate, if_pos rfl]

/-- A certificate without host names leaves those of a certificate before it recorded. -/
theorem hostnames_filled_of_none (h : hostnames? r.request = none) :
  (r.filled secret ca bundle issued).annotationAt? AnnotationKey.hostnames
    = secret.annotationAt? AnnotationKey.hostnames
  := by
  rw [filled_eq, h, Option.elim_none, attributed, Object.annotationAt?_annotate, if_neg (by decide),
    Secret.annotationAt?_withText, Secret.annotationAt?_withKeyPair_of_ne (by decide) (by decide)]

theorem policy_filled :
  (r.filled secret ca bundle issued).annotationAt? AnnotationKey.policy
    = secret.annotationAt? AnnotationKey.policy
  := by
  rw [annotationAt?_filled (by decide) (by decide),
    ← Secret.annotationAt?_withKeyPair secret issued.certPem issued.keyPem, Secret.policy_withKeyPair]

/-- The texts of a filled secret. -/
theorem texts_filled :
  (r.filled secret ca bundle issued).text? EntryKey.certificate = some issued.certPem
    ∧ (r.filled secret ca bundle issued).text? EntryKey.privateKey = some issued.keyPem
    ∧ (r.filled secret ca bundle issued).text? EntryKey.authority = some (encodeBundle bundle)
  := by
  refine ⟨?_, ?_, ?_⟩
  · rw [text?_filled, if_neg (by decide), Secret.text?_withKeyPair, if_neg (by decide), if_pos rfl]
  · rw [text?_filled, if_neg (by decide), Secret.text?_withKeyPair, if_pos rfl]
  · rw [text?_filled, if_pos rfl]

/-- A bundle of certificates begins with the one that it is led by. -/
theorem publishedAuthority?_of_text {first : TrustedCertificate} {rest : List TrustedCertificate}
    (hgenuine : ∀ cert ∈ first :: rest, cert.Genuine)
    (htext : secret.text? EntryKey.authority = some (encodeBundle (first :: rest))) :
  publishedAuthority? secret = some first
  := by
  rw [publishedAuthority?, htext, Option.bind_some, parseCertificates_encodeBundle _ hgenuine]
  rfl

/-- What a secret says to trust first is the first certificate of its text. -/
theorem publishedAuthority?_eq_some {first : TrustedCertificate}
    (h : publishedAuthority? secret = some first) :
  ∃ text rest, secret.text? EntryKey.authority = some text
    ∧ parseCertificates text = .ok (first :: rest)
  := by
  obtain ⟨text, htext, h⟩ := Option.bind_eq_some_iff.mp h
  cases hparse : parseCertificates text with
  | error fault =>
    rw [hparse] at h
    cases h
  | ok certs =>
    rw [hparse] at h
    cases certs with
    | nil => cases h
    | cons cert rest =>
      cases h
      exact ⟨text, rest, htext, hparse⟩

/-! ### What a stage does with it -/

variable {lifetime : Duration} {seed : Nat} {rest : List TrustedCertificate}

/-- A filled secret holds the certificate that was issued. -/
theorem holds_filled (hca : ca.Sound)
    (hsign : ca.sign r.request now lifetime (KeyPair.generate seed) = .ok issued)
    (hgenuine : ∀ cert ∈ ca.trusted :: rest, cert.Genuine) :
  (r.filled secret ca (ca.trusted :: rest) issued).Holds r.request ca.trusted issued.info
    issued.certPem issued.keyPem
  := by
  obtain ⟨v, hv, hserves⟩ := Authority.serves_of_sign hsign
  obtain ⟨hcert, hkey, hauthority⟩ := @texts_filled r secret ca (ca.trusted :: rest) issued
  constructor
  · apply hcert
  · apply hkey
  · apply publishedAuthority?_of_text hgenuine hauthority
  · apply hserves.keyMatches
  · apply hserves.servedBy
  · apply CertificateInfo.dated_of_starting hv hserves.notBefore hserves.notAfter
  · apply hca.issued_of_sign hsign

/-- The validity of the certificate of a filled secret is recorded. -/
theorem records_filled (hsign : ca.sign r.request now lifetime (KeyPair.generate seed) = .ok issued) :
  (r.filled secret ca bundle issued).Records issued.info
  := by
  obtain ⟨v, hv, hserves⟩ := Authority.serves_of_sign hsign
  apply (Secret.records_withValidity hv hserves.notBefore hserves.notAfter secret).of_annotations
  · apply annotationAt?_filled <;> decide
  · apply annotationAt?_filled <;> decide

theorem not_lacks {key text : String} (h : secret.text? key = some text) (hne : text ≠ "") :
  lacks secret key = false
  := by
  rw [lacks, h]
  simpa using hne

/-- A secret without any content needs a certificate. -/
theorem mismatch?_of_blank (h : ∀ key, secret.bytes? key = none) :
  r.mismatch? secret ca = some (.missing EntryKey.certificate)
  := by
  have hlacks : lacks secret EntryKey.certificate = true := by
    rw [lacks, Secret.text?, h]
    rfl
  rw [mismatch?, if_pos hlacks]

/-- Storing a secret does not change whether its certificate serves. -/
theorem mismatch?_stamped (store : Store) (ns : String) :
  r.mismatch? (store.stamped ns secret) ca = r.mismatch? secret ca
  := by
  simp only [mismatch?, lacks, publishedAuthority?, Secret.text?_stamped, Object.annotationAt?_stamped]
  rfl

/-- Storing a secret does not change the outcome of its check. -/
theorem reason?_stamped (store : Store) (ns : String) :
  r.reason? (store.stamped ns secret) ca now = r.reason? secret ca now
  := by
  rw [reason?, reason?, mismatch?_stamped]
  rfl

/-- A leaf that has just been issued serves. -/
theorem mismatch?_filled (hsign : ca.sign r.request now lifetime (KeyPair.generate seed) = .ok issued)
    (hgenuine : ∀ cert ∈ ca.trusted :: rest, cert.Genuine) :
  r.mismatch? (r.filled secret ca (ca.trusted :: rest) issued) ca = none
  := by
  obtain ⟨v, -, hserves⟩ := Authority.serves_of_sign hsign
  obtain ⟨hcertPem, hkeyPem⟩ := Authority.ne_empty_of_keyMatches? hserves.keyMatches
  obtain ⟨s, hs⟩ : ∃ s, s = r.filled secret ca (ca.trusted :: rest) issued := ⟨_, rfl⟩
  have htexts : s.text? EntryKey.certificate = some issued.certPem
      ∧ s.text? EntryKey.privateKey = some issued.keyPem
      ∧ s.text? EntryKey.authority = some (encodeBundle (ca.trusted :: rest)) := hs ▸ texts_filled
  have hissuer : s.annotationAt? AnnotationKey.issuer = some ca.info.commonName := hs ▸ issuer_filled
  have hauthority := publishedAuthority?_of_text hgenuine htexts.2.2
  have hsame : ((some ca.trusted).all fun first => first.pem ≠ ca.certPem) = false := by
    simp [Authority.trusted]
  rw [← hs]
  simp only [mismatch?, not_lacks htexts.1 hcertPem, not_lacks htexts.2.1 hkeyPem, hissuer, hauthority,
    hsame, ne_eq, not_true_eq_false, Bool.false_eq_true, if_false]
  cases hhostnames : hostnames? r.request with
  | none => rfl
  | some hostnames =>
    rw [hs, hostnames_filled hhostnames]
    simp

/-- A leaf that has just been issued passes its check. -/
theorem reason?_filled
    (hsign : ca.sign r.request now r.policy.lifetime (KeyPair.generate seed) = .ok issued)
    (hgenuine : ∀ cert ∈ ca.trusted :: rest, cert.Genuine)
    (hlifetime : 2 ≤ r.policy.lifetime.seconds)
    (hrefresh : nanosPerSecond ≤ r.policy.refresh.nanos) :
  r.reason? (r.filled secret ca (ca.trusted :: rest) issued) ca now = .ok none
  := by
  obtain ⟨v, hv, hserves⟩ := Authority.serves_of_sign hsign
  have hrecords : (r.filled secret ca (ca.trusted :: rest) issued).Records issued.info :=
    records_filled hsign
  have hdue := hrecords.due? r.policy.refresh now
  rw [hserves.notBefore, hserves.notAfter, Validity.due?_starting hv hlifetime hrefresh] at hdue
  rw [reason?, mismatch?_filled hsign hgenuine]
  simp only [hdue, ok_bind]
  rfl

/-- A leaf that passes its check was issued by the authority that it is checked for. -/
theorem of_reason?_eq_none (h : r.reason? secret ca now = .ok none) :
  r.mismatch? secret ca = none ∧ secret.metadata.due? r.policy.refresh now = .ok none
  := by
  unfold reason? at h
  split at h
  · cases h
  · rename_i hmismatch
    obtain ⟨reason, hdue, h⟩ := bind_eq_ok.mp h
    cases reason with
    | some reason => cases h
    | none => exact ⟨hmismatch, hdue⟩

/-- A secret that passes its check has a certificate with the names that were asked for, and was told
to trust the authority first. -/
theorem of_mismatch?_eq_none (h : r.mismatch? secret ca = none) :
  lacks secret EntryKey.certificate = false
    ∧ (∃ first, publishedAuthority? secret = some first ∧ first.pem = ca.certPem)
    ∧ ∀ wanted, hostnames? r.request = some wanted →
      secret.annotationAt? AnnotationKey.hostnames = some wanted
  := by
  unfold mismatch? at h
  split at h
  · cases h
  · rename_i hcertificate
    split at h
    · cases h
    · split at h
      · cases h
      · split at h
        · cases h
        · split at h
          · cases h
          · rename_i hpublished
            refine ⟨eq_false_of_ne_true hcertificate, ?_, ?_⟩
            · cases hfirst : publishedAuthority? secret with
              | none =>
                rw [hfirst] at hpublished
                exact absurd rfl hpublished
              | some first =>
                refine ⟨first, rfl, ?_⟩
                rw [hfirst] at hpublished
                simpa using hpublished
            · intro wanted hwanted
              rw [hwanted] at h
              dsimp only at h
              split at h
              · assumption
              · cases h

/-- What a secret says to trust first is the authority that it passes its check for. -/
theorem pem_of_mismatch?_eq_none {first : TrustedCertificate} (h : r.mismatch? secret ca = none)
    (hfirst : publishedAuthority? secret = some first) :
  first.pem = ca.certPem
  := by
  obtain ⟨-, ⟨first', hfirst', hpem⟩, -⟩ := of_mismatch?_eq_none h
  cases hfirst.symm.trans hfirst'
  apply hpem

/-- The stage of a secret that is known decides from that secret. -/
theorem ensure_eq (hknown : r.known = some secret)
    (ca : Authority) (trusted : List TrustedCertificate) :
  r.ensure ca trusted = (do
    let now ← Procedure.clock
    match ← Procedure.ofComputation (r.reason? secret ca now) with
    | none => return ()
    | some reason => r.rotate secret ca trusted reason)
  := by
  rw [ensure, hknown]
  rfl

end LeafStage

end CertKeeper
