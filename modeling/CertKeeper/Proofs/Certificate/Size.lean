import CertKeeper.Proofs.Certificate.Authority

/-!
# How long certificates are

What is put into an element becomes at most ten octets longer (`Der.length_write_le`). So a
certificate is not much longer than the names in it (`Certificate.length_selfSigned_le`,
`Certificate.length_leaf_le`), and one with names of a moderate length is short enough to be read.
-/

namespace CertKeeper

/-! ### Elements and texts -/

theorem Octets.length_ofText (text : String) :
  (ofText text).length = text.utf8ByteSize
  := by
  rw [ofText, toList_eq, Array.length_toList]
  rfl

namespace Der

theorem length_write_le (tag : UInt8) (content : Octets) :
  (write tag content).length ≤ content.length + 10
  := by
  have hlength : (lengthOctets content.length).length ≤ 9 := by
    unfold lengthOctets
    split
    · simp
    · split
      · rename_i h
        have := Octets.width_le h
        rw [List.length_cons, Octets.length_minimal]
        omega
      · simp
  rw [write, List.length_cons, List.length_append]
  omega

theorem length_sequence_le (items : List Octets) :
  (sequence items).length ≤ items.flatten.length + 10
  := length_write_le 0x30 items.flatten

/-- A number below `2 ^ 64` takes at most nine octets. -/
theorem length_naturalContent_le {n : Nat} (h : n < Nat.pow 2 64) :
  (naturalContent n).length ≤ 9
  := by
  have hminimal := Octets.length_minimal n
  have hwidth := Octets.width_le h
  unfold naturalContent
  split
  · simp
  · rename_i b rest heq
    rw [heq, List.length_cons] at hminimal
    split
    · rw [List.length_cons]
      omega
    · rw [List.length_cons, List.length_cons]
      omega

end Der

/-! ### The parts of a certificate -/

theorem Name.length_write_ofCommonName_le (text : String) :
  (ofCommonName text).write.length ≤ text.utf8ByteSize + 60
  := by
  obtain ⟨value, hvalue⟩ : ∃ value, value = Octets.ofText text := ⟨_, rfl⟩
  have hlength : value.length = text.utf8ByteSize := by rw [hvalue, Octets.length_ofText]
  have htext := Der.length_write_le 0x0C value
  have hoid : (Der.oid commonNameOid).length = 5 := by decide
  have hattribute := Der.length_sequence_le [Der.oid commonNameOid, Der.write 0x0C value]
  have hentry := Der.length_write_le 0x31
    [Der.sequence [Der.oid commonNameOid, Der.write 0x0C value]].flatten
  have hname := Der.length_sequence_le [Der.write 0x31
    [Der.sequence [Der.oid commonNameOid, Der.write 0x0C value]].flatten]
  have hwrite : (ofCommonName text).write = Der.sequence [Der.write 0x31
      [Der.sequence [Der.oid commonNameOid, Der.write 0x0C value]].flatten] := by
    rw [hvalue]
    rfl
  rw [hwrite]
  simp only [List.flatten_cons, List.flatten_nil, List.append_nil, List.length_append] at *
  omega

theorem Extension.length_write_le (x : Extension) :
  x.write.length ≤ x.oid.length + x.value.length + 33
  := by
  have hoid := Der.length_write_le 0x06 x.oid
  have hvalue := Der.length_write_le 0x04 x.value
  have hcritical : (if x.critical then Der.isTrue else []).length ≤ 3 := by
    cases x.critical <;> decide
  have hitems := Der.length_sequence_le
    [Der.oid x.oid, if x.critical then Der.isTrue else [], Der.octetString x.value]
  rw [write]
  simp only [List.flatten_cons, List.flatten_nil, List.append_nil, List.length_append, Der.oid,
    Der.octetString] at *
  omega

/-- How much room host names take, with ten octets for each beside its own. -/
def AltName.room : List String → Nat
  | [] => 0
  | host :: hostnames => host.utf8ByteSize + 10 + room hostnames

theorem AltName.length_valueOfHostnames_le (hostnames : List String) :
  (valueOfHostnames hostnames).length ≤ room hostnames + 10
  := by
  have hitems : (hostnames.map (fun host => Der.write 0x82 (Octets.ofText host))).flatten.length
      ≤ room hostnames := by
    induction hostnames with
    | nil => simp
    | cons host hostnames ih =>
      have hhost := Der.length_write_le 0x82 (Octets.ofText host)
      rw [Octets.length_ofText] at hhost
      rw [List.map_cons, List.flatten_cons, List.length_append, room]
      omega
  apply Nat.le_trans (Der.length_sequence_le _)
  omega

/-- A time of the years 0 to 9999 takes at most fifteen characters. -/
theorem CertificateTime.length_write_le {seconds : Int}
    (hfrom : 0 ≤ (Instant.ofSeconds seconds).date.year)
    (hto : (Instant.ofSeconds seconds).date.year < 10000) :
  (write seconds).length ≤ 25
  := by
  obtain ⟨t, ht⟩ : ∃ t, t = Instant.ofSeconds seconds := ⟨_, rfl⟩
  have hfields := length_fields t
  have hshort : (Decimal.paddedDigits 2 (t.date.year % 100).toNat).length = 2 :=
    Decimal.length_paddedDigits 2 (by decide) (show (t.date.year % 100).toNat < 100 by omega)
  have hyear : t.date.year.toNat < 10000 := by
    rw [ht]
    omega
  have hlong : (Decimal.paddedDigits 4 t.date.year.toNat).length = 4 :=
    Decimal.length_paddedDigits 4 (by decide) hyear
  rw [write, ← ht, fields_eq]
  split
  · apply Nat.le_trans (Der.length_write_le _ _)
    rw [octets, List.length_map, List.length_append]
    omega
  · apply Nat.le_trans (Der.length_write_le _ _)
    rw [octets, List.length_map, List.length_append]
    omega

theorem Validity.length_serial_le {now : Instant} {lifetime : Duration} {v : Validity}
    (h : starting now lifetime = .ok v) :
  (Der.naturalContent v.serial).length ≤ 9
  := by
  obtain ⟨rfl, -⟩ := starting_eq_ok h
  apply Der.length_naturalContent_le
  show serialAt now < 18446744073709551616
  unfold serialAt
  split <;> omega

/-! ### Identifiers of keys -/

theorem Sha512.length_hash (message : Octets) :
  (hash message).length = 64
  := by
  simp [hash, Octets.length_ofNat]

theorem PublicKey.length_identifier (k : PublicKey) :
  k.identifier.length = 20
  := by
  rw [identifier, List.length_take, Sha512.length_hash]
  rfl

/-! ### Certificates -/

namespace Certificate

/-- A certificate is not much longer than its parts. -/
theorem length_items_le {c : Certificate} (h : c.Dated) :
  c.items.flatten.length ≤ c.serial.length + 2 * c.signatureAlgorithm.length + c.issuer.write.length
    + c.subject.write.length + c.publicKey.algorithm.length + c.publicKey.bits.length
    + (c.extensions.map Extension.write).flatten.length + c.signature.length + 200
  := by
  have hversion : (Der.write 0xA0 (Der.natural 2)).length = 5 := by decide
  have hserial := Der.length_write_le 0x02 c.serial
  have halgorithm := Der.length_sequence_le [Der.oid c.signatureAlgorithm]
  have hoid := Der.length_write_le 0x06 c.signatureAlgorithm
  have hfrom := CertificateTime.length_write_le h.1.1 h.1.2
  have hto := CertificateTime.length_write_le h.2.1 h.2.2
  have hvalidity := Der.length_sequence_le
    [CertificateTime.write c.notBefore, CertificateTime.write c.notAfter]
  have hkeyAlgorithm := Der.length_sequence_le [c.publicKey.algorithm]
  have hbits := Der.length_write_le 0x03 (0 :: c.publicKey.bits)
  have hkey := Der.length_sequence_le
    [Der.sequence [c.publicKey.algorithm], Der.bitString c.publicKey.bits]
  have hextensions := Der.length_write_le 0xA3 (Der.sequence (c.extensions.map Extension.write))
  have hlist := Der.length_sequence_le (c.extensions.map Extension.write)
  have hsignature := Der.length_write_le 0x03 (0 :: c.signature)
  have hbody := Der.length_sequence_le c.bodyItems
  simp only [items, bodyItems, writePublicKey, Der.oid, Der.bitString, List.flatten_cons,
    List.flatten_nil, List.append_nil, List.length_append, List.length_cons] at *
  omega

variable {now : Instant} {lifetime : Duration} {v : Validity}

/-- The certificate of a new authority is not much longer than its two names. -/
theorem length_selfSigned_le (hv : Validity.starting now lifetime = .ok v) (commonName : String)
    (seed : Nat) :
  (selfSigned commonName v (KeyPair.generate seed).key).items.flatten.length
    ≤ 2 * commonName.utf8ByteSize + 1000
  := by
  obtain ⟨key, hkey⟩ : ∃ key, key = (KeyPair.generate seed).key := ⟨_, rfl⟩
  have halgorithm : key.algorithm = .p256 := by rw [hkey, KeyPair.algorithm_generate]
  have hbits : key.publicBits.length = 65 := by
    rw [hkey]
    apply KeyPair.length_publicOctets
  have hname := Name.length_write_ofCommonName_le commonName
  have hserial := Validity.length_serial_le hv
  have hidentifier := PublicKey.length_identifier key.publicKey
  have hidentifierValue := Der.length_write_le 0x04 key.publicKey.identifier
  have husage := Extension.length_write_le ⟨Extension.keyUsageOid, true,
    KeyUse.valueOf [.keyCertSign, .crlSign, .digitalSignature]⟩
  have hsubject := Extension.length_write_le (Extension.subjectKey key.publicKey.identifier)
  have hconstraints := Extension.length_write_le
    ⟨Extension.constraintsOid, true, BasicConstraints.authorityValue⟩
  have husageValue : (KeyUse.valueOf [.keyCertSign, .crlSign, .digitalSignature]).length = 4 := by
    decide
  have hconstraintsValue : BasicConstraints.authorityValue.length = 5 := by decide
  have hlength := length_items_le (dated_of_starting (c := selfSigned commonName v key) hv rfl rfl)
  have hoid : (key.algorithm.signatureOid).length = 8 := by
    rw [halgorithm]
    rfl
  have hkeyAlgorithm : key.algorithm.identifier.length = 19 := by
    rw [halgorithm]
    rfl
  have hoids : Extension.keyUsageOid.length = 3 ∧ Extension.subjectKeyOid.length = 3
      ∧ Extension.constraintsOid.length = 3 := by decide
  rw [← hkey]
  simp only [selfSigned, PrivateKey.publicKey, Extension.subjectKey, Der.octetString, List.map_cons,
    List.map_nil, List.flatten_cons, List.flatten_nil, List.append_nil, List.length_append] at *
  omega

/-- The identifier of the key of a new authority takes twenty octets. -/
theorem length_keyIdentifier_selfSigned (commonName : String) (v : Validity) (key : PrivateKey) :
  (selfSigned commonName v key).keyIdentifier.length = 20
  := by
  have hextensions : (selfSigned commonName v key).extensionsOf Extension.subjectKeyOid
      = [Extension.subjectKey key.publicKey.identifier] := rfl
  have hidentifier := PublicKey.length_identifier key.publicKey
  have hshort : Der.Short key.publicKey.identifier := by
    have : 20 < Nat.pow 2 64 := by decide
    unfold Der.Short
    omega
  have hread := Der.primitive?_octetString hshort []
  rw [List.append_nil] at hread
  simp only [keyIdentifier, hextensions, Extension.subjectKey, hread, Option.map_some,
    Option.getD_some]
  apply hidentifier

/-- The extensions of a leaf certificate. -/
def leafExtensions (issuerKey : Octets) (request : LeafRequest) : List Extension :=
  [Extension.authorityKey issuerKey]
    ++ (if request.hostnames.isEmpty then []
      else [⟨Extension.altNamesOid, false, AltName.valueOfHostnames request.hostnames⟩])
    ++ [⟨Extension.keyUsageOid, true, KeyUse.valueOf [.digitalSignature, .keyEncipherment]⟩,
      ⟨Extension.extendedUsageOid, false, ExtendedUsage.valueOf request.extendedUse⟩]

theorem length_leafExtensions_le (issuerKey : Octets) (request : LeafRequest) :
  ((leafExtensions issuerKey request).map Extension.write).flatten.length
    ≤ issuerKey.length + AltName.room request.hostnames + 300
  := by
  have hidentifier := Der.length_write_le 0x80 issuerKey
  have hidentifiers := Der.length_sequence_le [Der.write 0x80 issuerKey]
  have hauthority := Extension.length_write_le (Extension.authorityKey issuerKey)
  have hhostnames := AltName.length_valueOfHostnames_le request.hostnames
  have haltNames := Extension.length_write_le
    ⟨Extension.altNamesOid, false, AltName.valueOfHostnames request.hostnames⟩
  have husage : (Extension.write ⟨Extension.keyUsageOid, true,
      KeyUse.valueOf [.digitalSignature, .keyEncipherment]⟩).length = 16 := by decide
  have hserver : (Extension.write ⟨Extension.extendedUsageOid, false,
      ExtendedUsage.valueOf ExtendedUsage.serverAuthOid⟩).length = 21 := by decide
  have hclient : (Extension.write ⟨Extension.extendedUsageOid, false,
      ExtendedUsage.valueOf ExtendedUsage.clientAuthOid⟩).length = 21 := by decide
  have hextended : (Extension.write ⟨Extension.extendedUsageOid, false,
      ExtendedUsage.valueOf request.extendedUse⟩).length = 21 := by
    cases request with
    | serving hostnames => apply hserver
    | client user => apply hclient
  have hoids : Extension.authorityKeyOid.length = 3 ∧ Extension.altNamesOid.length = 3 := by decide
  unfold leafExtensions
  split
  · simp only [Extension.authorityKey, List.map_append, List.map_cons, List.map_nil,
      List.flatten_append, List.flatten_cons, List.flatten_nil, List.append_nil,
      List.length_append] at *
    omega
  · simp only [Extension.authorityKey, List.map_append, List.map_cons, List.map_nil,
      List.flatten_append, List.flatten_cons, List.flatten_nil, List.append_nil,
      List.length_append] at *
    omega

/-- A leaf certificate is not much longer than what it says. -/
theorem length_leaf_le (hv : Validity.starting now lifetime = .ok v) (issuer : Name)
    (issuerKey : Octets) (signerSeed : Nat) (commonName : String) (request : LeafRequest)
    (seed : Nat) :
  (leaf issuer issuerKey (KeyPair.generate signerSeed).key commonName request v
      (KeyPair.generate seed).key.publicKey).items.flatten.length
    ≤ issuer.write.length + issuerKey.length + commonName.utf8ByteSize
      + AltName.room request.hostnames + 1000
  := by
  obtain ⟨c, hc⟩ : ∃ c, c = leaf issuer issuerKey (KeyPair.generate signerSeed).key commonName
      request v (KeyPair.generate seed).key.publicKey := ⟨_, rfl⟩
  have hparts : c.serial = Der.naturalContent v.serial ∧ c.issuer = issuer
      ∧ c.subject = Name.ofCommonName commonName := by
    rw [hc]
    exact ⟨rfl, rfl, rfl⟩
  have hkeys : c.signatureAlgorithm.length = 8 ∧ c.publicKey.algorithm.length = 19
      ∧ c.publicKey.bits.length = 65 ∧ c.signature.length = 65 := by
    rw [hc]
    exact ⟨rfl, rfl, KeyPair.length_publicOctets _, KeyPair.length_publicOctets _⟩
  have hname := Name.length_write_ofCommonName_le commonName
  have hserial := Validity.length_serial_le hv
  have hlength := length_items_le (dated_of_starting (c := c) hv (by rw [hc]; rfl) (by rw [hc]; rfl))
  have hextensions := length_leafExtensions_le issuerKey request
  rw [← hc]
  rw [hparts.1, hparts.2.1, hparts.2.2, show c.extensions = leafExtensions issuerKey request by
    rw [hc, leafExtensions]; rfl] at hlength
  omega

end Certificate

end CertKeeper
