import CertKeeper.Proofs.Certificate.Requested

/-!
# Issuing once more

The text of a certificate is no shorter than what the certificate is made of
(`Certificate.length_parts_le_text`). So the text of one that was issued bounds the length of the next one
for the same request, which differs in its validity, its key and its serial number. If the text fits into
memory, the next one can be issued at any time for which the validity is possible
(`Authority.exists_generate_again`, `Authority.exists_sign_again`).
-/

namespace CertKeeper

/-! ### Texts and what they hold -/

theorem Base64.length_le_encode (bytes : Octets) :
  bytes.length ≤ (encode bytes).length
  := by
  induction bytes using encode.induct with
  | case1 => simp
  | case2 a => simp [encode]
  | case3 a b => simp [encode]
  | case4 a b c rest ih =>
    simp only [encode, List.length_cons]
    omega

theorem Base64.length_encode_le (bytes : Octets) :
  (encode bytes).length ≤ 4 * bytes.length
  := by
  induction bytes using encode.induct with
  | case1 => simp [encode]
  | case2 a => simp [encode]
  | case3 a b => simp [encode]
  | case4 a b c rest ih =>
    simp only [encode, List.length_cons]
    omega

/-- At most one end of a line is written for each character, and one more. -/
theorem Pem.length_wrap_le (width room : Nat) (cs : List Char) :
  (wrap width room cs).length ≤ 2 * cs.length + 1
  := by
  induction cs generalizing room with
  | nil => simp [wrap]
  | cons c rest ih =>
    cases room with
    | zero =>
      have := ih width
      simp only [wrap, List.length_cons]
      omega
    | succ room =>
      have := ih room
      simp only [wrap, List.length_cons]
      omega

/-- The text of a certificate is longer than the certificate by no more than a factor. -/
theorem utf8ByteSize_encodeCertificate_le (bytes : Octets) :
  (encodeCertificate bytes).utf8ByteSize ≤ 32 * bytes.length + 1000
  := by
  have htext := Decimal.utf8ByteSize_ofList_le (encodeCertificate bytes).toList
  rw [String.ofList_toList, encodeCertificate, Pem.toList_encode] at htext
  have hdata : (Pem.wrapped bytes).length ≤ 8 * bytes.length + 1 := by
    unfold Pem.wrapped
    split
    · simp
    · have hwrap := Pem.length_wrap_le 63 64 (Base64.encode bytes)
      have hencode := Base64.length_encode_le bytes
      omega
  have htag : certificateTag.toList.length = 11 := by decide
  have hmarks : "-----BEGIN ".toList.length = 11 ∧ "-----".toList.length = 5
      ∧ "-----END ".toList.length = 9 := by decide
  simp only [List.length_append, List.length_cons, List.length_nil, htag, hmarks] at htext
  rw [encodeCertificate]
  omega

/-- The text of a block is no shorter than the octets in it. -/
theorem Pem.length_content_le (b : Block) :
  b.content.length ≤ (encode b).utf8ByteSize
  := by
  have hcharacters := Decimal.length_le_utf8ByteSize_ofList (encode b).toList
  rw [String.ofList_toList, toList_encode] at hcharacters
  have hdata : b.content.length ≤ (wrapped b.content).length := by
    have hread := decode?_wrapped b.content
    have hencode : (wrapped b.content).filter (fun c => !isBlank c) = Base64.encode b.content := by
      unfold wrapped
      split
      · rename_i hempty
        rw [List.isEmpty_iff.mp hempty]
        rfl
      · apply filter_wrap
        intro c hc
        apply (Base64.symbolic_of_mem_encode hc).isBlank_eq_false
    calc b.content.length
        ≤ (Base64.encode b.content).length := Base64.length_le_encode b.content
      _ = ((wrapped b.content).filter (fun c => !isBlank c)).length := by rw [hencode]
      _ ≤ (wrapped b.content).length := List.length_filter_le _ _
  simp only [List.length_append, List.length_cons] at hcharacters
  omega

theorem Der.length_le_write (tag : UInt8) (content : Octets) :
  content.length ≤ (write tag content).length
  := by
  rw [write, List.length_cons, List.length_append]
  omega

namespace Certificate

/-- A certificate is no shorter than its parts. -/
theorem length_parts_le (c : Certificate) :
  2 * c.signatureAlgorithm.length + c.issuer.write.length + c.subject.write.length
      + (c.extensions.map Extension.write).flatten.length + c.signature.length
    ≤ c.write.length
  := by
  have hoid := Der.length_le_write 0x06 c.signatureAlgorithm
  have halgorithm := Der.length_le_write 0x30 [Der.oid c.signatureAlgorithm].flatten
  have hlist := Der.length_le_write 0x30 (c.extensions.map Extension.write).flatten
  have hextensions := Der.length_le_write 0xA3 (Der.sequence (c.extensions.map Extension.write))
  have hsignature := Der.length_le_write 0x03 (0 :: c.signature)
  have hbody := Der.length_le_write 0x30 c.bodyItems.flatten
  have hitems := Der.length_le_write 0x30 c.items.flatten
  rw [write]
  simp only [items, bodyItems, Der.sequence, Der.oid, Der.bitString, List.flatten_cons,
    List.flatten_nil, List.append_nil, List.length_append, List.length_cons] at *
  omega

/-- A name is no shorter than its text. -/
theorem utf8ByteSize_le_write_ofCommonName (text : String) :
  text.utf8ByteSize ≤ (Name.ofCommonName text).write.length
  := by
  obtain ⟨value, hvalue⟩ : ∃ value, value = Octets.ofText text := ⟨_, rfl⟩
  have hlength : value.length = text.utf8ByteSize := by rw [hvalue, Octets.length_ofText]
  have htext := Der.length_le_write 0x0C value
  have hattribute := Der.length_le_write 0x30 [Der.oid commonNameOid, Der.write 0x0C value].flatten
  have hset := Der.length_le_write 0x31
    [Der.sequence [Der.oid commonNameOid, Der.write 0x0C value]].flatten
  have hname := Der.length_le_write 0x30 [Der.write 0x31
    [Der.sequence [Der.oid commonNameOid, Der.write 0x0C value]].flatten].flatten
  have hwrite : (Name.ofCommonName text).write = Der.sequence [Der.write 0x31
      [Der.sequence [Der.oid commonNameOid, Der.write 0x0C value]].flatten] := by
    rw [hvalue]
    rfl
  rw [hwrite]
  simp only [Der.sequence, List.flatten_cons, List.flatten_nil, List.append_nil,
    List.length_append] at *
  omega

/-- The text of a certificate is no shorter than its parts. -/
theorem length_parts_le_text (c : Certificate) :
  2 * c.signatureAlgorithm.length + c.issuer.write.length + c.subject.write.length
      + (c.extensions.map Extension.write).flatten.length + c.signature.length
    ≤ (encodeCertificate c.write).utf8ByteSize
  := Nat.le_trans c.length_parts_le (Pem.length_content_le ⟨certificateTag, c.write⟩)

end Certificate

/-! ### The next certificate -/

/-- A text that fits into memory, whose addresses have 63 bits. -/
def Addressable (text : String) : Prop := text.utf8ByteSize < 9223372036854775808

namespace Authority

variable {ca : Authority} {request : LeafRequest} {issued : IssuedCertificate}
variable {commonName commonName' : String} {now later : Instant} {lifetime length : Duration}
variable {v v' : Validity} {seed : Nat}

/-- The text of a new authority is that of its certificate. -/
theorem certPem_of_generate (h : generate commonName v (KeyPair.generate seed) = .ok ca) :
  ca.certPem
    = encodeCertificate (Certificate.selfSigned commonName v (KeyPair.generate seed).key).write
  := by
  obtain ⟨-, -, rest, hparse⟩ := ofPem_eq_ok h
  apply (TrustedCertificate.ofOctets_eq_ok (TrustedCertificate.ofOctets_of_parseCertificates hparse)).1

/-- The text of a new authority is not much longer than its name. -/
theorem utf8ByteSize_certPem_le (hv : Validity.starting now lifetime = .ok v)
    (h : generate commonName v (KeyPair.generate seed) = .ok ca) :
  ca.certPem.utf8ByteSize ≤ 64 * commonName.utf8ByteSize + 40000
  := by
  obtain ⟨c, hc⟩ : ∃ c, c = Certificate.selfSigned commonName v (KeyPair.generate seed).key := ⟨_, rfl⟩
  have hitems := Certificate.length_selfSigned_le hv commonName seed
  have htext := utf8ByteSize_encodeCertificate_le c.write
  have hwrite : c.write.length ≤ c.items.flatten.length + 10 := Der.length_sequence_le c.items
  rw [certPem_of_generate h, ← hc]
  rw [← hc] at hitems
  omega

/-- Another authority can be generated, with a name that is not much longer, if the text of the first one
fits into memory. -/
theorem exists_generate_again (h : generate commonName v (KeyPair.generate seed) = .ok ca)
    (hsize : Addressable ca.certPem)
    (hname : commonName'.utf8ByteSize ≤ commonName.utf8ByteSize + 100)
    (hv' : Validity.starting later length = .ok v') (seed' : Nat) :
  ∃ ca', generate commonName' v' (KeyPair.generate seed') = .ok ca'
  := by
  have hparts := Certificate.length_parts_le_text
    (Certificate.selfSigned commonName v (KeyPair.generate seed).key)
  rw [← certPem_of_generate h] at hparts
  have hsubject := Certificate.utf8ByteSize_le_write_ofCommonName commonName
  simp only [Certificate.selfSigned] at hparts
  unfold Addressable at hsize
  apply exists_generate_of_size hv'
  omega

/-- The text of what is issued is that of the leaf that was prepared. -/
theorem certPem_of_sign {signer : PrivateKey} {cert : Certificate} {name : Name}
    (h : ca.sign request now lifetime (KeyPair.generate seed) = .ok issued)
    (hprepare : ca.prepare request now lifetime = .ok (commonName, v, signer, cert, name)) :
  issued.certPem = encodeCertificate (Certificate.leaf name cert.keyIdentifier signer commonName request v
    (KeyPair.generate seed).key.publicKey).write
  := by
  simp only [sign, bind_eq_ok, mapError_eq_ok] at h
  obtain ⟨_, hprepare', info, -, h⟩ := h
  cases hprepare.symm.trans hprepare'
  cases h
  rfl

/-- What was issued for a request can be issued again, if its text fits into memory. -/
theorem exists_sign_again (h : ca.sign request now lifetime (KeyPair.generate seed) = .ok issued)
    (hsize : Addressable issued.certPem)
    (hpossible : Validity.Possible later length) (seed' : Nat) :
  ∃ issued', ca.sign request later length (KeyPair.generate seed') = .ok issued'
  := by
  obtain ⟨commonName, v, signer, cert, name, c, hprepare, hc, -⟩ := exists_leaf_of_sign h
  obtain ⟨hcommonName, -, hhostnames, hsigner⟩ := prepare_eq_ok hprepare
  have hv' := Validity.starting_eq hpossible
  apply exists_sign (prepare_eq hcommonName hv' hhostnames hsigner)
  obtain ⟨c', hc'⟩ : ∃ c', c' = Certificate.leaf name cert.keyIdentifier signer commonName request
      ⟨later.seconds, later.seconds + length.seconds, Validity.serialAt later⟩
      (KeyPair.generate seed').key.publicKey := ⟨_, rfl⟩
  -- The two certificates differ in nothing whose length is open.
  have hsame : c'.signatureAlgorithm = c.signatureAlgorithm ∧ c'.issuer = c.issuer
      ∧ c'.subject = c.subject ∧ c'.extensions = c.extensions ∧ c'.signature = c.signature := by
    simp only [hc, hc', Certificate.leaf, and_self]
  have hkey : c'.publicKey.algorithm.length = 19 ∧ c'.publicKey.bits.length = 65 := by
    rw [hc']
    exact ⟨rfl, KeyPair.length_publicOctets _⟩
  have hserial : c'.serial.length ≤ 9 := by
    rw [hc']
    apply Validity.length_serial_le hv'
  have hlength := Certificate.length_items_le
    (Certificate.dated_of_starting (c := c') hv' (by rw [hc']; rfl) (by rw [hc']; rfl))
  have hparts := c.length_parts_le_text
  rw [hc, ← certPem_of_sign h hprepare, ← hc] at hparts
  rw [hsame.1, hsame.2.1, hsame.2.2.1, hsame.2.2.2.1, hsame.2.2.2.2] at hlength
  rw [← hc']
  have hlarge : Nat.pow 2 64 = 18446744073709551616 := rfl
  unfold Addressable at hsize
  unfold Der.Short
  omega

end Authority

end CertKeeper
