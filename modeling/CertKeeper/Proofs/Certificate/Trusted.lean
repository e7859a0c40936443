import CertKeeper.Certificate.Info
import CertKeeper.Proofs.Encoding.Pem
import CertKeeper.Proofs.Program.Result

/-!
# Certificates with their texts

The certificates of a text are `Genuine`: their text is the block of some octets, and what
is known about them was read from these octets. A bundle of genuine certificates is read
back as it was (`parseCertificates_encodeBundle`).
-/

namespace CertKeeper

/-- The text of the certificate is the block of the octets that it was read from. -/
def TrustedCertificate.Genuine (cert : TrustedCertificate) : Prop :=
  ∃ bytes, TrustedCertificate.ofOctets bytes = .ok cert

theorem tagged_certificate (bytes : Octets) :
  (⟨certificateTag, bytes⟩ : Pem.Block).Tagged
  := by
  constructor
  · show certificateTag ≠ ""
    decide
  · have hall : certificateTag.toList.all (fun c => c ≠ '-') = true := by decide
    intro c hc
    apply of_decide_eq_true (List.all_eq_true.mp hall c hc)

/-- What reading octets gives. -/
theorem TrustedCertificate.ofOctets_eq_ok {bytes : Octets} {cert : TrustedCertificate}
    (h : TrustedCertificate.ofOctets bytes = .ok cert) :
  cert.pem = encodeCertificate bytes ∧ CertificateInfo.ofOctets bytes = .ok cert.info
  := by
  unfold TrustedCertificate.ofOctets at h
  cases hinfo : CertificateInfo.ofOctets bytes with
  | error fault =>
    rw [hinfo] at h
    cases h
  | ok info =>
    rw [hinfo] at h
    cases h
    exact ⟨rfl, rfl⟩

namespace TrustedCertificate.Genuine

variable {cert : TrustedCertificate}

theorem pem_ne_empty (h : cert.Genuine) :
  cert.pem ≠ ""
  := by
  obtain ⟨bytes, hbytes⟩ := h
  rw [(TrustedCertificate.ofOctets_eq_ok hbytes).1]
  intro hempty
  have := congrArg String.toList hempty
  rw [encodeCertificate, Pem.toList_encode] at this
  cases this

/-- The certificate that its text holds. -/
theorem first_pem (h : cert.Genuine) :
  ∃ bytes, Pem.first cert.pem = some ⟨certificateTag, bytes⟩
    ∧ TrustedCertificate.ofOctets bytes = .ok cert
  := by
  obtain ⟨bytes, hbytes⟩ := h
  refine ⟨bytes, ?_, hbytes⟩
  rw [(TrustedCertificate.ofOctets_eq_ok hbytes).1]
  apply Pem.first_encode (tagged_certificate bytes)

/-- Genuine certificates with the same text are the same. -/
theorem eq_of_pem_eq {cert' : TrustedCertificate} (h : cert.Genuine) (h' : cert'.Genuine)
    (hpem : cert.pem = cert'.pem) :
  cert = cert'
  := by
  obtain ⟨bytes, hfirst, hbytes⟩ := h.first_pem
  obtain ⟨bytes', hfirst', hbytes'⟩ := h'.first_pem
  rw [hpem, hfirst'] at hfirst
  obtain rfl : bytes' = bytes := congrArg Pem.Block.content (Option.some.inj hfirst)
  rw [hbytes] at hbytes'
  cases hbytes'
  rfl

end TrustedCertificate.Genuine

/-! ### Texts of several certificates -/

/-- What is read from a text is genuine. -/
theorem genuine_of_mem_parseCertificates {text : String} {certs : List TrustedCertificate}
    (h : parseCertificates text = .ok certs) {cert : TrustedCertificate} (hcert : cert ∈ certs) :
  cert.Genuine
  := by
  unfold parseCertificates at h
  split at h
  · cases h
  · obtain ⟨b, -, hb⟩ := (mapM_eq_ok h).1 cert hcert
    exact ⟨b.content, hb⟩

/-- A text of one certificate is read as what its octets say. -/
theorem TrustedCertificate.ofOctets_of_parseCertificates {bytes : Octets} {cert : TrustedCertificate}
    {rest : List TrustedCertificate}
    (h : parseCertificates (encodeCertificate bytes) = .ok (cert :: rest)) :
  TrustedCertificate.ofOctets bytes = .ok cert
  := by
  have hblocks : Pem.blocks (encodeCertificate bytes) = some [⟨certificateTag, bytes⟩] := by
    have := Pem.blocks_join [⟨certificateTag, bytes⟩] (by simp [tagged_certificate])
    rwa [List.map_singleton, String.join_cons, String.join_nil, String.append_empty] at this
  unfold parseCertificates at h
  rw [hblocks] at h
  obtain ⟨b, hb, hread⟩ := (mapM_eq_ok h).1 cert List.mem_cons_self
  obtain rfl := List.mem_singleton.mp (List.mem_filter.mp hb).1
  apply hread

/-- A bundle is read back as it was. -/
theorem parseCertificates_encodeBundle (certs : List TrustedCertificate)
    (h : ∀ cert ∈ certs, cert.Genuine) :
  parseCertificates (encodeBundle certs) = .ok certs
  := by
  -- The octets that the certificates were read from make up the text.
  obtain ⟨bytes, hmap, hread⟩ : ∃ bytes : List Octets, certs.map (·.pem) = bytes.map encodeCertificate
      ∧ bytes.mapM TrustedCertificate.ofOctets = .ok certs := by
    induction certs with
    | nil => exact ⟨[], rfl, rfl⟩
    | cons cert certs ih =>
      obtain ⟨b, hb⟩ := h cert (by simp)
      obtain ⟨bs, hmap, hread⟩ := ih (fun cert' hcert' => h cert' (by simp [hcert']))
      refine ⟨b :: bs, ?_, ?_⟩
      · rw [List.map_cons, List.map_cons, hmap, (TrustedCertificate.ofOctets_eq_ok hb).1]
      · rw [List.mapM_cons, hb, hread]
        rfl
  have hblocks : Pem.blocks (encodeBundle certs)
      = some (bytes.map (fun b => ⟨certificateTag, b⟩)) := by
    rw [encodeBundle, hmap]
    have hjoin := Pem.blocks_join (bytes.map (fun b => ⟨certificateTag, b⟩)) (by
      intro b hb
      obtain ⟨content, -, rfl⟩ := List.mem_map.mp hb
      apply tagged_certificate)
    rw [List.map_map] at hjoin
    apply hjoin
  rw [parseCertificates, hblocks]
  simp only
  rw [List.filter_eq_self.mpr, List.mapM_map]
  · apply hread
  · intro b hb
    obtain ⟨content, -, rfl⟩ := List.mem_map.mp hb
    simp

/-- A text of one certificate is read as it. -/
theorem parseCertificates_pem {cert : TrustedCertificate} (h : cert.Genuine) :
  parseCertificates cert.pem = .ok [cert]
  := by
  have := parseCertificates_encodeBundle [cert] (by simpa using h)
  rwa [encodeBundle, List.map_singleton, String.join_cons, String.join_nil, String.append_empty]
    at this

end CertKeeper
