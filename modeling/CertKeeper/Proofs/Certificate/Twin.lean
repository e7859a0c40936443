import CertKeeper.Proofs.Certificate.Size

/-!
# Certificates with other keys

Two certificates that differ in their keys only are `Parallel`: they are equally long, so one of them is
short enough to be read if the other is. Two authorities are `Authority.Twins` if they are the same, or
were made alike with keys of their own. Twins say the same of themselves, and what one of them can issue
the other one can issue as well, with any new key (`Authority.Twins.exists_sign`).
-/

namespace CertKeeper

/-! ### Lengths -/

theorem Der.length_write_of_length {a b : Octets} (tag : UInt8) (h : a.length = b.length) :
  (write tag a).length = (write tag b).length
  := by
  simp only [write, List.length_cons, List.length_append, h]

theorem Extension.length_write_of_length {x y : Extension} (hoid : x.oid = y.oid)
    (hcritical : x.critical = y.critical) (hvalue : x.value.length = y.value.length) :
  x.write.length = y.write.length
  := by
  apply Der.length_write_of_length
  have hstring := Der.length_write_of_length 0x04 hvalue
  simp only [List.flatten_cons, List.flatten_nil, List.append_nil, List.length_append, hoid, hcritical,
    Der.octetString, hstring]

namespace Extension

variable {a b : Octets}

theorem length_write_subjectKey (h : a.length = b.length) :
  (subjectKey a).write.length = (subjectKey b).write.length
  := by
  have hvalue : (subjectKey a).value.length = (subjectKey b).value.length :=
    Der.length_write_of_length 0x04 h
  apply length_write_of_length _ _ hvalue
  · rfl
  · rfl

theorem length_write_authorityKey (h : a.length = b.length) :
  (authorityKey a).write.length = (authorityKey b).write.length
  := by
  have hitem := Der.length_write_of_length 0x80 h
  have hvalue : (authorityKey a).value.length = (authorityKey b).value.length := by
    apply Der.length_write_of_length 0x30
    simp only [List.flatten_cons, List.flatten_nil, List.append_nil, hitem]
  apply length_write_of_length _ _ hvalue
  · rfl
  · rfl

end Extension

/-- Two private keys have the same algorithm, and their public keys the same length. -/
structure PrivateKey.Like (key key' : PrivateKey) : Prop where
  algorithm : key'.algorithm = key.algorithm
  bits : key'.publicBits.length = key.publicBits.length

/-- New keys are all alike. -/
theorem KeyPair.like_generate (seed seed' : Nat) :
  (generate seed).key.Like (generate seed').key
  := by
  constructor
  · rw [algorithm_generate, algorithm_generate]
  · apply (length_publicOctets _).trans
    apply (length_publicOctets _).symm

namespace Certificate

/-- Two certificates are the same but for keys of the same length. -/
structure Parallel (c c' : Certificate) : Prop where
  serial : c'.serial = c.serial
  issuer : c'.issuer = c.issuer
  notBefore : c'.notBefore = c.notBefore
  notAfter : c'.notAfter = c.notAfter
  subject : c'.subject = c.subject
  keyAlgorithm : c'.publicKey.algorithm = c.publicKey.algorithm
  keyBits : c'.publicKey.bits.length = c.publicKey.bits.length
  extensions : (c'.extensions.map Extension.write).flatten.length
    = (c.extensions.map Extension.write).flatten.length
  signatureAlgorithm : c'.signatureAlgorithm = c.signatureAlgorithm
  signature : c'.signature.length = c.signature.length

theorem Parallel.length_items {c c' : Certificate} (h : c.Parallel c') :
  c'.items.flatten.length = c.items.flatten.length
  := by
  have hbits : ∀ {a b : Octets}, a.length = b.length →
      (Der.bitString a).length = (Der.bitString b).length := by
    intro a b hab
    apply Der.length_write_of_length
    rw [List.length_cons, List.length_cons, hab]
  have hkey : (writePublicKey c'.publicKey).length = (writePublicKey c.publicKey).length := by
    apply Der.length_write_of_length
    simp only [List.flatten_cons, List.flatten_nil, List.append_nil, List.length_append, h.keyAlgorithm,
      hbits h.keyBits]
  have hextensions : (Der.write 0xA3 (Der.sequence (c'.extensions.map Extension.write))).length
      = (Der.write 0xA3 (Der.sequence (c.extensions.map Extension.write))).length := by
    apply Der.length_write_of_length
    apply Der.length_write_of_length
    apply h.extensions
  have hbody : (Der.sequence c'.bodyItems).length = (Der.sequence c.bodyItems).length := by
    apply Der.length_write_of_length
    simp only [bodyItems, List.flatten_cons, List.flatten_nil, List.append_nil, List.length_append,
      h.serial, h.issuer, h.notBefore, h.notAfter, h.subject, h.signatureAlgorithm, hkey, hextensions]
  simp only [items, List.flatten_cons, List.flatten_nil, List.append_nil, List.length_append, hbody,
    h.signatureAlgorithm, hbits h.signature]

/-- Of two parallel certificates one is short if the other is. -/
theorem Parallel.short {c c' : Certificate} (h : c.Parallel c') (hshort : Der.Short c.items.flatten) :
  Der.Short c'.items.flatten
  := by
  unfold Der.Short at *
  rw [h.length_items]
  apply hshort

variable {key key' signer signer' : PrivateKey}

theorem algorithm_publicKey (h : key.Like key') :
  key'.publicKey.algorithm = key.publicKey.algorithm
  := by
  rw [PrivateKey.publicKey, PrivateKey.publicKey, h.algorithm]

/-- New authorities with the same name and the same validity have parallel certificates. -/
theorem parallel_selfSigned (h : key.Like key') (commonName : String) (v : Validity) :
  (selfSigned commonName v key).Parallel (selfSigned commonName v key')
  := by
  have hidentifier : (Extension.subjectKey key'.publicKey.identifier).write.length
      = (Extension.subjectKey key.publicKey.identifier).write.length := by
    apply Extension.length_write_subjectKey
    rw [PublicKey.length_identifier, PublicKey.length_identifier]
  refine ⟨rfl, rfl, rfl, rfl, rfl, algorithm_publicKey h, h.bits, ?_, ?_, h.bits⟩
  · simp only [selfSigned, List.map_cons, List.map_nil, List.flatten_cons, List.flatten_nil,
      List.length_append, hidentifier]
  · simp only [selfSigned, h.algorithm]

/-- Leaf certificates for the same request are parallel, if the keys of their issuers are alike. -/
theorem parallel_leaf {issuerKey issuerKey' : Octets} (issuer : Name)
    (hissuerKey : issuerKey'.length = issuerKey.length) (hsigner : signer.Like signer')
    (h : key.Like key') (commonName : String) (request : LeafRequest) (v : Validity) :
  (leaf issuer issuerKey signer commonName request v key.publicKey).Parallel
    (leaf issuer issuerKey' signer' commonName request v key'.publicKey)
  := by
  have hidentifier := Extension.length_write_authorityKey hissuerKey
  refine ⟨rfl, rfl, rfl, rfl, rfl, algorithm_publicKey h, h.bits, ?_, ?_, hsigner.bits⟩
  · simp only [leaf, List.map_append, List.map_cons, List.map_nil, List.flatten_append,
      List.flatten_cons, List.flatten_nil, List.append_nil, List.length_append, hidentifier]
  · simp only [leaf, hsigner.algorithm]

end Certificate

/-! ### Authorities -/

namespace Authority

/-- Two authorities were made under the same name and for the same time, with keys of their own. -/
def MadeAlike (ca ca' : Authority) : Prop :=
  ∃ commonName now lifetime v seed seed', Validity.starting now lifetime = .ok v
    ∧ generate commonName v (KeyPair.generate seed) = .ok ca
    ∧ generate commonName v (KeyPair.generate seed') = .ok ca'

/-- Two authorities are the same, or were made alike. -/
inductive Twins (ca : Authority) : Authority → Prop where
  | same : Twins ca ca
  | made {ca' : Authority} : ca.MadeAlike ca' → Twins ca ca'

variable {ca ca' : Authority} {commonName : String} {now : Instant} {lifetime : Duration} {v : Validity}
variable {seed : Nat} {request : LeafRequest} {issued : IssuedCertificate}

/-- Whether an authority can be made does not depend on the new key. -/
theorem exists_generate_of_generate (hv : Validity.starting now lifetime = .ok v)
    (h : generate commonName v (KeyPair.generate seed) = .ok ca) (seed' : Nat) :
  ∃ ca', generate commonName v (KeyPair.generate seed') = .ok ca'
  := by
  apply exists_generate hv
  apply (Certificate.parallel_selfSigned (KeyPair.like_generate seed seed') commonName v).short
  apply (read_of_generate hv h).1

/-- Authorities that were made alike say the same of themselves. -/
theorem MadeAlike.info (h : ca.MadeAlike ca') :
  ca'.info = ca.info
  := by
  obtain ⟨commonName, now, lifetime, v, seed, seed', hv, hca, hca'⟩ := h
  rw [(generate_eq_ok hv hca).2, (generate_eq_ok hv hca').2]

theorem MadeAlike.sound (h : ca.MadeAlike ca') :
  ca.Sound ∧ ca'.Sound
  := by
  obtain ⟨commonName, now, lifetime, v, seed, seed', hv, hca, hca'⟩ := h
  exact ⟨(generate_eq_ok hv hca).1, (generate_eq_ok hv hca').1⟩

theorem MadeAlike.symm (h : ca.MadeAlike ca') :
  ca'.MadeAlike ca
  := by
  obtain ⟨commonName, now, lifetime, v, seed, seed', hv, hca, hca'⟩ := h
  exact ⟨commonName, now, lifetime, v, seed', seed, hv, hca', hca⟩

theorem Twins.symm (h : ca.Twins ca') :
  ca'.Twins ca
  := by
  cases h with
  | same => exact .same
  | made hmade => exact .made hmade.symm

theorem Twins.info (h : ca.Twins ca') :
  ca'.info = ca.info
  := by
  cases h with
  | same => rfl
  | made hmade => apply hmade.info

/-- Twins sign under the same name, with keys of the same kind. -/
theorem Twins.signer {key : PrivateKey} {cert : Certificate} {name : Name} (h : ca.Twins ca')
    (hsigner : ca.signer = .ok (key, cert, name)) :
  ∃ key' cert', ca'.signer = .ok (key', cert', name) ∧ key.Like key'
    ∧ cert'.keyIdentifier.length = cert.keyIdentifier.length
  := by
  cases h with
  | same => exact ⟨key, cert, hsigner, ⟨rfl, rfl⟩, rfl⟩
  | made hmade =>
    obtain ⟨commonName, now, lifetime, v, seed, seed', hv, hca, hca'⟩ := hmade
    cases hsigner.symm.trans (of_generate hv hca).2.2
    refine ⟨_, _, (of_generate hv hca').2.2, KeyPair.like_generate seed seed', ?_⟩
    rw [Certificate.length_keyIdentifier_selfSigned, Certificate.length_keyIdentifier_selfSigned]

/-- What an authority can issue its twin can issue as well, with any new key. -/
theorem Twins.exists_sign (h : ca.Twins ca')
    (hsign : ca.sign request now lifetime (KeyPair.generate seed) = .ok issued) (seed' : Nat) :
  ∃ issued', ca'.sign request now lifetime (KeyPair.generate seed') = .ok issued'
    ∧ issued'.info = issued.info
  := by
  obtain ⟨commonName, v, key, cert, name, c, hprepare, rfl, hshort, -, hinfo, -⟩ :=
    exists_leaf_of_sign hsign
  obtain ⟨hcommonName, hv, hhostnames, hsigner⟩ := prepare_eq_ok hprepare
  obtain ⟨key', cert', hsigner', hlike, hidentifier⟩ := h.signer hsigner
  have hprepare' := prepare_eq hcommonName hv hhostnames hsigner'
  have hshort' := (Certificate.parallel_leaf name hidentifier hlike (KeyPair.like_generate seed seed')
    commonName request v).short hshort
  obtain ⟨issued', hsign'⟩ := Authority.exists_sign hprepare' hshort'
  obtain ⟨_, _, _, _, _, c', hprepared, rfl, -, -, hinfo', -⟩ := exists_leaf_of_sign hsign'
  cases hprepare'.symm.trans hprepared
  rw [Certificate.info_leaf hshort'] at hinfo'
  rw [Certificate.info_leaf hshort] at hinfo
  exact ⟨issued', hsign', Except.ok.inj (hinfo'.symm.trans hinfo)⟩

end Authority

end CertKeeper
