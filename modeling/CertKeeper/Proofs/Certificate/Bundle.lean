import CertKeeper.Proofs.Certificate.Size

/-!
# Bundles as texts

A certificate is `Obtained` if it was read from a text or belongs to an authority that was loaded. A
list of such certificates, in any order and with any repetitions, is what is read from the text that is
written for it. So a text that can be read is put into a normal form when it is read and written
(`rewriteBundle`), which reading and writing leave alone (`bundle_read_back`).
-/

namespace CertKeeper

/-- The certificate was read from a text, or it is the one of an authority that was loaded. -/
inductive TrustedCertificate.Obtained : TrustedCertificate → Prop where
  | read {text : String} {certs : List TrustedCertificate} {cert : TrustedCertificate} :
      parseCertificates text = .ok certs → cert ∈ certs → Obtained cert
  | loaded {certPem keyPem : String} {ca : Authority} :
      Authority.ofPem certPem keyPem = .ok ca → Obtained ca.trusted

theorem TrustedCertificate.Obtained.genuine {cert : TrustedCertificate} (h : cert.Obtained) :
  cert.Genuine
  := by
  cases h with
  | read hparse hmem => apply genuine_of_mem_parseCertificates hparse hmem
  | loaded hload => apply (Authority.ofPem_eq_ok hload).1.genuine

/-- The text with the certificates of a text. -/
def rewriteBundle (text : String) : Except CertificateFault String :=
  (parseCertificates text).map encodeBundle

/-- Certificates that were read or loaded are read back from their bundle as they were, with their order
and their repetitions. So a text that is read, written and read again holds the same certificates, and
writing it once more changes nothing. -/
theorem bundle_read_back :
  (∀ certs : List TrustedCertificate, (∀ cert ∈ certs, cert.Obtained) →
      parseCertificates (encodeBundle certs) = .ok certs)
    ∧ (∀ text certs, parseCertificates text = .ok certs →
        parseCertificates (encodeBundle certs) = .ok certs)
    ∧ ∀ text text', rewriteBundle text = .ok text' → rewriteBundle text' = .ok text'
  := by
  have hback : ∀ certs : List TrustedCertificate, (∀ cert ∈ certs, cert.Obtained) →
      parseCertificates (encodeBundle certs) = .ok certs :=
    fun certs h => parseCertificates_encodeBundle certs (fun cert hcert => (h cert hcert).genuine)
  have hparsed : ∀ text certs, parseCertificates text = .ok certs →
      parseCertificates (encodeBundle certs) = .ok certs :=
    fun text certs h => hback certs (fun cert hcert => .read h hcert)
  refine ⟨hback, hparsed, ?_⟩
  intro text text' h
  unfold rewriteBundle at h
  cases hparse : parseCertificates text with
  | error fault =>
    rw [hparse] at h
    cases h
  | ok certs =>
    rw [hparse] at h
    cases h
    rw [rewriteBundle, hparsed text certs hparse]
    rfl

/-- Two authorities with different names, one of them listed twice. -/
theorem bundle_read_back_of_repeated :
  ∃ ca ca' : Authority, ca.trusted.Obtained ∧ ca'.trusted.Obtained
    ∧ ca.info.commonName = "pki_ca@0" ∧ ca'.info.commonName = "pki_signer@0"
    ∧ parseCertificates (encodeBundle [ca'.trusted, ca.trusted, ca'.trusted])
      = .ok [ca'.trusted, ca.trusted, ca'.trusted]
    ∧ rewriteBundle (encodeBundle [ca'.trusted, ca.trusted, ca'.trusted])
      = .ok (encodeBundle [ca'.trusted, ca.trusted, ca'.trusted])
  := by
  have hpossible : Validity.Possible (.ofSeconds 0) ⟨3600 * nanosPerSecond, by decide⟩ :=
    Validity.possible_ofSeconds (by decide)
  obtain ⟨v, hv⟩ : ∃ v, Validity.starting _ _ = .ok v := ⟨_, Validity.starting_eq hpossible⟩
  have hmade : ∀ commonName : String, commonName.utf8ByteSize ≤ 100 →
      ∃ ca : Authority, ca.trusted.Obtained ∧ ca.info.commonName = commonName := by
    intro commonName hsize
    have hshort : Der.Short
        (Certificate.selfSigned commonName v (KeyPair.generate 0).key).items.flatten := by
      have hlength := Certificate.length_selfSigned_le hv commonName 0
      have hlarge : Nat.pow 2 64 = 18446744073709551616 := rfl
      unfold Der.Short
      omega
    obtain ⟨ca, hca⟩ := Authority.exists_generate hv hshort
    exact ⟨ca, .loaded hca, congrArg CertificateInfo.commonName (Authority.generate_eq_ok hv hca).2⟩
  obtain ⟨ca, hca, hname⟩ := hmade "pki_ca@0" (by decide)
  obtain ⟨ca', hca', hname'⟩ := hmade "pki_signer@0" (by decide)
  have hback := bundle_read_back.1 [ca'.trusted, ca.trusted, ca'.trusted] (by simp [hca, hca'])
  refine ⟨ca, ca', hca, hca', hname, hname', bundle_read_back.2.1 _ _ hback, ?_⟩
  apply bundle_read_back.2.2 (encodeBundle [ca'.trusted, ca.trusted, ca'.trusted])
  rw [rewriteBundle, hback]
  rfl

end CertKeeper
