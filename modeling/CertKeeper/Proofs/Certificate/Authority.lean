import CertKeeper.Proofs.Certificate.Extension
import CertKeeper.Proofs.Certificate.Issuer
import CertKeeper.Proofs.Certificate.Trusted
import CertKeeper.Proofs.Certificate.Validity
import CertKeeper.Proofs.Key.Private
import CertKeeper.Proofs.Program.Result

/-!
# Authorities and what they issue

A new authority is `Sound` (`Authority.generate_eq_ok`): its key belongs to its certificate,
and it issues under the subject of its certificate. So what it signs was issued by its
certificate (`Authority.Sound.issued_of_sign`), and whatever signs, the leaf serves the request
(`Authority.serves_of_sign`). Loading an authority again from its own texts gives it back
(`Authority.ofPem_self`).
-/

namespace CertKeeper

/-- A leaf was signed by its signer, and by no other key. -/
theorem Certificate.isSignedBy_leaf (issuer : Name) (issuerKey : Octets) (signer : PrivateKey)
    (commonName : String) (request : LeafRequest) (v : Validity) (key k : PublicKey) :
  (leaf issuer issuerKey signer commonName request v key).isSignedBy k ↔ signer.publicKey = k
  := by
  rw [isSignedBy, leaf, KeyAlgorithm.ofSignatureOid?_signatureOid, Option.any_some,
    decide_eq_true_iff]

/-- A certificate names the subject of another one as its issuer and was signed by the owner of
its key. -/
def Certificate.IssuedBy (c issuer : Certificate) : Prop :=
  c.issuer = issuer.subject ∧ c.isSignedBy issuer.publicKey

theorem PublicKey.regular_publicKey (k : PrivateKey) :
  k.publicKey.Regular
  := by
  obtain ⟨algorithm, bits⟩ := k
  cases algorithm with
  | p256 => exact ⟨_, _, rfl, .inr ⟨0x06, _, by decide, rfl⟩⟩
  | p384 => exact ⟨_, _, rfl, .inr ⟨0x06, _, by decide, rfl⟩⟩
  | ed25519 => exact ⟨_, [], (List.append_nil _).symm, .inl rfl⟩
  | rsa => exact ⟨_, _, rfl, .inr ⟨0x05, [], by decide, rfl⟩⟩

namespace Certificate

theorem dated_of_starting {c : Certificate} {now : Instant} {lifetime : Duration} {v : Validity}
    (h : Validity.starting now lifetime = .ok v) (hfrom : c.notBefore = v.notBefore)
    (hto : c.notAfter = v.notAfter) :
  c.Dated
  := by
  obtain ⟨rfl, hbegins, hends⟩ := Validity.starting_eq_ok h
  constructor
  · rw [hfrom]
    apply Validity.year_bounds hbegins
    omega
  · rw [hto]
    apply Validity.year_bounds _ hends
    omega

theorem regular_selfSigned {now : Instant} {lifetime : Duration} {v : Validity}
    (h : Validity.starting now lifetime = .ok v) (commonName : String) (key : PrivateKey) :
  (selfSigned commonName v key).Regular
  := by
  constructor
  · apply Name.regular_ofCommonName
  · apply Name.regular_ofCommonName
  · apply PublicKey.regular_publicKey
  · apply dated_of_starting h rfl rfl

theorem regular_leaf {now : Instant} {lifetime : Duration} {v : Validity} {issuer : Name}
    (hissuer : issuer.Regular) (h : Validity.starting now lifetime = .ok v) (issuerKey : Octets)
    (signer key : PrivateKey) (commonName : String) (request : LeafRequest) :
  (leaf issuer issuerKey signer commonName request v key.publicKey).Regular
  := by
  constructor
  · apply hissuer
  · apply Name.regular_ofCommonName
  · apply PublicKey.regular_publicKey
  · apply dated_of_starting h rfl rfl

/-- What is read from the octets of a regular certificate is what it says. -/
theorem ofOctets_eq_ok {c : Certificate} (h : c.Regular) {info : CertificateInfo}
    (hinfo : CertificateInfo.ofOctets c.write = .ok info) :
  Der.Short c.items.flatten ∧ read? c.write = some c ∧ CertificateInfo.ofCertificate c = .ok info
  := by
  unfold CertificateInfo.ofOctets at hinfo
  split at hinfo
  · cases hinfo
  · rename_i c' hread
    obtain rfl := eq_of_read?_write h hread
    exact ⟨short_of_read?_write hread, hread, hinfo⟩

/-- What a regular certificate says is read from its octets, if they are short. -/
theorem ofOctets_write {c : Certificate} (h : c.Regular) (hshort : Der.Short c.items.flatten) :
  CertificateInfo.ofOctets c.write = CertificateInfo.ofCertificate c
  := by
  rw [CertificateInfo.ofOctets, read?_write h hshort]

theorem first_encodeCertificate (bytes : Octets) :
  Pem.first (encodeCertificate bytes) = some ⟨certificateTag, bytes⟩
  := Pem.first_encode (tagged_certificate bytes)

end Certificate

namespace Authority

theorem certificate?_encodeCertificate (bytes : Octets) :
  certificate? (encodeCertificate bytes) = Certificate.read? bytes
  := by
  rw [certificate?, Certificate.first_encodeCertificate, Option.bind_some]

/-! ### Loading -/

/-- What is known about an authority that was loaded. -/
structure Loaded (ca : Authority) : Prop where
  genuine : ca.trusted.Genuine
  key : (PrivateKey.ofPem? ca.keyPem).isSome
  isAuthority : ca.info.isAuthority

theorem ofPem_eq_ok {certPem keyPem : String} {ca : Authority} (h : ofPem certPem keyPem = .ok ca) :
  ca.Loaded ∧ ca.keyPem = keyPem ∧ ∃ rest, parseCertificates certPem = .ok (ca.trusted :: rest)
  := by
  unfold ofPem at h
  split at h
  · cases h
  · rename_i key hkey
    split at h
    · cases h
    · cases h
    · rename_i cert rest hparse
      split at h
      · rename_i hauthority
        cases h
        refine ⟨⟨?_, ?_, hauthority⟩, rfl, rest, hparse⟩
        · apply genuine_of_mem_parseCertificates hparse
          apply List.mem_cons_self
        · simp only [hkey, Option.isSome_some]
      · cases h

/-- Loading an authority again from its own texts gives it back. -/
theorem ofPem_self {ca : Authority} (h : ca.Loaded) :
  ofPem ca.certPem ca.keyPem = .ok ca
  := by
  obtain ⟨key, hkey⟩ := Option.isSome_iff_exists.mp h.key
  have hparse : parseCertificates ca.certPem = .ok [ca.trusted] := parseCertificates_pem h.genuine
  simp only [ofPem, hkey, hparse]
  rw [if_pos (show ca.trusted.info.isAuthority = true from h.isAuthority)]
  rfl

theorem Loaded.certPem_ne_empty {ca : Authority} (h : ca.Loaded) :
  ca.certPem ≠ ""
  := h.genuine.pem_ne_empty

/-! ### Making -/

/-- The key of an authority belongs to its certificate, and it issues under the subject of the
certificate. -/
structure Sound (ca : Authority) : Prop where
  loaded : ca.Loaded
  signs : ∃ key cert, ca.signer = .ok (key, cert, cert.subject) ∧ key.publicKey = cert.publicKey

theorem signer_eq_ok {ca : Authority} {key : PrivateKey} {cert : Certificate} {name : Name}
    (h : ca.signer = .ok (key, cert, name)) :
  PrivateKey.ofPem? ca.keyPem = some key ∧ certificate? ca.certPem = some cert
    ∧ IssuerName.ofCertificate? cert = some name
  := by
  unfold signer at h
  split at h
  · cases h
  · rename_i key' hkey
    split at h
    · cases h
    · rename_i cert' hcert
      split at h
      · cases h
      · rename_i name' hname
        cases h
        exact ⟨hkey, hcert, hname⟩

theorem Sound.keyMatches? {ca : Authority} (h : ca.Sound) :
  keyMatches? ca.certPem ca.keyPem = some true
  := by
  obtain ⟨key, cert, hsigner, hpublic⟩ := h.signs
  obtain ⟨hkey, hcert, -⟩ := signer_eq_ok hsigner
  simp [Authority.keyMatches?, hkey, hcert, hpublic]

variable {commonName : String} {now : Instant} {lifetime : Duration} {v : Validity} {seed : Nat}

/-- The certificate of a new authority is short and says what it was made for. -/
theorem read_of_generate {ca : Authority} (hv : Validity.starting now lifetime = .ok v)
    (h : generate commonName v (KeyPair.generate seed) = .ok ca) :
  Der.Short (Certificate.selfSigned commonName v (KeyPair.generate seed).key).items.flatten
    ∧ certificate? ca.certPem = some (Certificate.selfSigned commonName v (KeyPair.generate seed).key)
    ∧ ca.info = ⟨commonName, commonName, .ofSeconds v.notBefore, .ofSeconds v.notAfter, [], true,
      false, false⟩
  := by
  obtain ⟨c, hc⟩ : ∃ c, c = Certificate.selfSigned commonName v (KeyPair.generate seed).key :=
    ⟨_, rfl⟩
  have hregular : c.Regular := hc ▸ Certificate.regular_selfSigned hv _ _
  obtain ⟨-, -, rest, hparse⟩ := ofPem_eq_ok h
  rw [← hc] at hparse
  have htrusted : TrustedCertificate.ofOctets c.write = .ok ca.trusted :=
    TrustedCertificate.ofOctets_of_parseCertificates hparse
  obtain ⟨hpem, hinfo⟩ := TrustedCertificate.ofOctets_eq_ok htrusted
  obtain ⟨hshort, hread, hgives⟩ := Certificate.ofOctets_eq_ok hregular hinfo
  have hpem' : ca.certPem = encodeCertificate c.write := hpem
  rw [hc, CertificateInfo.ofCertificate_selfSigned] at hgives
  rw [← hc, hpem', certificate?_encodeCertificate]
  exact ⟨hshort, hread, (Except.ok.inj hgives).symm⟩

/-- A new authority is loaded, says what it was made for, and signs with its key under its name. -/
theorem of_generate {ca : Authority} (hv : Validity.starting now lifetime = .ok v)
    (h : generate commonName v (KeyPair.generate seed) = .ok ca) :
  ca.Loaded
    ∧ ca.info = ⟨commonName, commonName, .ofSeconds v.notBefore, .ofSeconds v.notAfter, [], true,
      false, false⟩
    ∧ ca.signer = .ok ((KeyPair.generate seed).key,
      Certificate.selfSigned commonName v (KeyPair.generate seed).key, Name.ofCommonName commonName)
  := by
  obtain ⟨hloaded, hkeyPem, -⟩ := ofPem_eq_ok h
  obtain ⟨-, hcertificate, hinfo⟩ := read_of_generate hv h
  refine ⟨hloaded, hinfo, ?_⟩
  simp only [signer, hkeyPem, KeyPair.ofPem?_generate, hcertificate,
    IssuerName.ofCertificate?_selfSigned]
  rfl

/-- A new authority is sound and says what it was made for. -/
theorem generate_eq_ok {ca : Authority} (hv : Validity.starting now lifetime = .ok v)
    (h : generate commonName v (KeyPair.generate seed) = .ok ca) :
  ca.Sound ∧ ca.info = ⟨commonName, commonName, .ofSeconds v.notBefore, .ofSeconds v.notAfter, [],
    true, false, false⟩
  := by
  obtain ⟨hloaded, hinfo, hsigner⟩ := of_generate hv h
  exact ⟨⟨hloaded, _, _, hsigner, rfl⟩, hinfo⟩

/-- A new authority can be made, if its certificate is short. -/
theorem exists_generate (hv : Validity.starting now lifetime = .ok v)
    (hshort : Der.Short
      (Certificate.selfSigned commonName v (KeyPair.generate seed).key).items.flatten) :
  ∃ ca, generate commonName v (KeyPair.generate seed) = .ok ca
  := by
  obtain ⟨c, hc⟩ : ∃ c, c = Certificate.selfSigned commonName v (KeyPair.generate seed).key :=
    ⟨_, rfl⟩
  have hregular : c.Regular := hc ▸ Certificate.regular_selfSigned hv _ _
  have hgives := CertificateInfo.ofCertificate_selfSigned commonName v (KeyPair.generate seed).key
  rw [← hc] at hshort hgives
  have hinfo := Certificate.ofOctets_write hregular hshort
  rw [hgives] at hinfo
  have hgenuine : TrustedCertificate.Genuine ⟨encodeCertificate c.write, _⟩ :=
    ⟨c.write, by rw [TrustedCertificate.ofOctets, hinfo]; rfl⟩
  have hparse := parseCertificates_pem hgenuine
  simp only [generate, ofPem, ← hc, hparse, KeyPair.ofPem?_generate, if_true]
  exact ⟨_, rfl⟩

/-! ### Issuing -/

/-- A certificate with its key pair serves a request for a validity. -/
structure Serves (issued : IssuedCertificate) (request : LeafRequest) (v : Validity) : Prop where
  keyMatches : keyMatches? issued.certPem issued.keyPem = some true
  servedBy : request.ServedBy issued.info
  notBefore : issued.info.notBefore = .ofSeconds v.notBefore
  notAfter : issued.info.notAfter = .ofSeconds v.notAfter

/-- The certificate of a text says what is known about it, and was issued by the certificate of
another text. -/
def Issued (issuerPem certPem : String) (info : CertificateInfo) : Prop :=
  ∃ c issuer, certificate? certPem = some c ∧ CertificateInfo.ofCertificate c = .ok info
    ∧ certificate? issuerPem = some issuer ∧ c.IssuedBy issuer

variable {ca : Authority} {request : LeafRequest} {signer : PrivateKey} {cert : Certificate}
variable {name : Name} {issued : IssuedCertificate}

/-- What has been prepared for a certificate. -/
theorem prepare_eq_ok
    (h : ca.prepare request now lifetime = .ok (commonName, v, signer, cert, name)) :
  request.commonName = .ok commonName ∧ Validity.starting now lifetime = .ok v
    ∧ request.checkHostnames = .ok () ∧ ca.signer = .ok (signer, cert, name)
  := by
  simp only [prepare, bind_eq_ok, mapError_eq_ok] at h
  obtain ⟨_, hcommonName, _, hv, _, hhostnames, ⟨_, _, _⟩, hsigner, h⟩ := h
  cases h
  exact ⟨hcommonName, hv, hhostnames, hsigner⟩

/-- Nothing else is needed to prepare a certificate. -/
theorem prepare_eq (hcommonName : request.commonName = .ok commonName)
    (hv : Validity.starting now lifetime = .ok v) (hhostnames : request.checkHostnames = .ok ())
    (hsigner : ca.signer = .ok (signer, cert, name)) :
  ca.prepare request now lifetime = .ok (commonName, v, signer, cert, name)
  := by
  rw [prepare, hcommonName, hv, hhostnames, hsigner]
  rfl

/-- The certificate that is issued is the leaf that was prepared. -/
theorem exists_leaf_of_sign
    (h : ca.sign request now lifetime (KeyPair.generate seed) = .ok issued) :
  ∃ commonName v signer cert name c,
    ca.prepare request now lifetime = .ok (commonName, v, signer, cert, name)
    ∧ c = Certificate.leaf name cert.keyIdentifier signer commonName request v
        (KeyPair.generate seed).key.publicKey
    ∧ Der.Short c.items.flatten ∧ certificate? issued.certPem = some c
    ∧ CertificateInfo.ofCertificate c = .ok issued.info ∧ issued.keyPem = (KeyPair.generate seed).pem
  := by
  simp only [sign, bind_eq_ok, mapError_eq_ok] at h
  obtain ⟨⟨commonName, v, signer, cert, name⟩, hprepare, info, hinfo, h⟩ := h
  cases h
  obtain ⟨-, hv, -, hsigner⟩ := prepare_eq_ok hprepare
  obtain ⟨-, -, hname⟩ := signer_eq_ok hsigner
  obtain ⟨c, hc⟩ : ∃ c, c = Certificate.leaf name cert.keyIdentifier signer commonName request v
      (KeyPair.generate seed).key.publicKey := ⟨_, rfl⟩
  have hregular : c.Regular := by
    rw [hc]
    apply Certificate.regular_leaf (IssuerName.regular_of_ofCertificate? hname) hv
  rw [← hc] at hinfo ⊢
  obtain ⟨hshort, hread, hgives⟩ := Certificate.ofOctets_eq_ok hregular hinfo
  refine ⟨commonName, v, signer, cert, name, c, hprepare, hc, hshort, ?_, hgives, rfl⟩
  rw [certificate?_encodeCertificate, hread]

/-- What is issued serves the request. -/
theorem serves_of_sign (h : ca.sign request now lifetime (KeyPair.generate seed) = .ok issued) :
  ∃ v, Validity.starting now lifetime = .ok v ∧ Serves issued request v
  := by
  obtain ⟨commonName, v, signer, cert, name, c, hprepare, hc, hshort, hcert, hgives, hkeyPem⟩ :=
    exists_leaf_of_sign h
  obtain ⟨hcommonName, hv, -, -⟩ := prepare_eq_ok hprepare
  refine ⟨v, hv, ?_⟩
  have hpublic : c.publicKey = (KeyPair.generate seed).key.publicKey := by
    rw [hc]
    rfl
  have hmatches : keyMatches? issued.certPem issued.keyPem = some true := by
    simp [keyMatches?, hkeyPem, KeyPair.ofPem?_generate, hcert, hpublic]
  rw [hc] at hgives hshort
  rw [Certificate.info_leaf hshort] at hgives
  obtain ⟨certPem, keyPem, info⟩ := issued
  obtain rfl := Except.ok.inj hgives
  constructor
  · apply hmatches
  · exact ⟨hcommonName, rfl, rfl, rfl⟩
  · rfl
  · rfl

/-- The text of what is issued holds just the certificate. -/
theorem genuine_of_sign (h : ca.sign request now lifetime (KeyPair.generate seed) = .ok issued) :
  TrustedCertificate.Genuine ⟨issued.certPem, issued.info⟩
  := by
  simp only [sign, bind_eq_ok, mapError_eq_ok] at h
  obtain ⟨⟨commonName, v, signer, cert, name⟩, -, info, hinfo, h⟩ := h
  cases h
  exact ⟨_, bind_eq_ok.mpr ⟨info, hinfo, rfl⟩⟩

/-- What a sound authority issues was issued by its certificate. -/
theorem Sound.issued_of_sign (hca : ca.Sound)
    (h : ca.sign request now lifetime (KeyPair.generate seed) = .ok issued) :
  Issued ca.certPem issued.certPem issued.info
  := by
  obtain ⟨commonName, v, signer, cert, name, c, hprepare, hc, -, hcert, hgives, -⟩ :=
    exists_leaf_of_sign h
  obtain ⟨-, -, -, hsigner⟩ := prepare_eq_ok hprepare
  obtain ⟨key, cert', hsigner', hpublic⟩ := hca.signs
  rw [hsigner'] at hsigner
  cases hsigner
  obtain ⟨-, hissuer, -⟩ := signer_eq_ok hsigner'
  refine ⟨c, cert, hcert, hgives, hissuer, ?_, ?_⟩
  · rw [hc]
    rfl
  · rw [hc, Certificate.isSignedBy_leaf]
    apply hpublic

/-- What has been prepared is issued, if the certificate is short. -/
theorem exists_sign
    (hprepare : ca.prepare request now lifetime = .ok (commonName, v, signer, cert, name))
    (hshort : Der.Short (Certificate.leaf name cert.keyIdentifier signer commonName request v
      (KeyPair.generate seed).key.publicKey).items.flatten) :
  ∃ issued, ca.sign request now lifetime (KeyPair.generate seed) = .ok issued
  := by
  obtain ⟨-, hv, -, hsigner⟩ := prepare_eq_ok hprepare
  obtain ⟨-, -, hname⟩ := signer_eq_ok hsigner
  have hinfo := Certificate.ofOctets_write
    (Certificate.regular_leaf (IssuerName.regular_of_ofCertificate? hname) hv _ _ _ _ _) hshort
  rw [Certificate.info_leaf hshort] at hinfo
  exact ⟨_, bind_eq_ok.mpr ⟨_, hprepare, bind_eq_ok.mpr ⟨_, mapError_eq_ok.mpr hinfo, rfl⟩⟩⟩

/-- No key belongs to a text without a certificate, nor to one without a key. -/
theorem ne_empty_of_keyMatches? {certPem keyPem : String} {b : Bool}
    (h : keyMatches? certPem keyPem = some b) :
  certPem ≠ "" ∧ keyPem ≠ ""
  := by
  have hfirst : Pem.first "" = none := rfl
  constructor
  · rintro rfl
    simp [keyMatches?, certificate?, hfirst] at h
  · rintro rfl
    simp [keyMatches?, PrivateKey.ofPem?, hfirst] at h

end Authority

end CertKeeper
