import CertKeeper.Certificate
import CertKeeper.Proofs.Certificate.Name
import CertKeeper.Proofs.Certificate.Time

/-!
# Reading certificates

A `Regular` certificate is read back as it was written, if its octets are short
(`Certificate.read?_write`), and otherwise it is not read at all. So whatever is read from the
octets of a regular certificate is that certificate (`Certificate.eq_of_read?_write`).
-/

namespace CertKeeper

namespace Extension

theorem read?_write {x : Extension} (hshort : Der.Short x.write) (rest : Octets) :
  read? (x.write ++ rest) = some (x, rest)
  := by
  have hitems : Der.Short [Der.oid x.oid, if x.critical then Der.isTrue else [],
      Der.octetString x.value].flatten := hshort.of_write
  have hoidItem : Der.Short (Der.oid x.oid) := hitems.of_mem_flatten (by simp)
  have hvalueItem : Der.Short (Der.octetString x.value) := hitems.of_mem_flatten (by simp)
  have hoid : Der.Short x.oid := hoidItem.of_write
  have hvalue : Der.Short x.value := hvalueItem.of_write
  have hcritical : critical? ((if x.critical then Der.isTrue else []) ++ (Der.octetString x.value ++ []))
      = (x.critical, Der.octetString x.value ++ []) := by
    cases x.critical with
    | true =>
      have hread : Der.tagged? Der.booleanTag (Der.write 0x01 [0xFF] ++ (Der.octetString x.value ++ []))
          = some ([0xFF], Der.octetString x.value ++ []) :=
        Der.tagged?_write 0x01 rfl (by decide) (by decide) _
      rw [if_pos rfl, critical?, Der.isTrue, hread]
      rfl
    | false =>
      have hread : Der.tagged? Der.booleanTag (Der.write 0x04 x.value ++ []) = none :=
        Der.tagged?_write_of_ne 0x04 (by decide) (by decide) hvalue []
      rw [if_neg (by decide), List.nil_append, critical?, Der.octetString, hread]
  simp only [read?, write, Der.tagged?_sequence hitems, Option.bind_eq_bind, Option.bind_some,
    List.flatten_cons, List.flatten_nil, Der.primitive?_oid hoid, hcritical,
    Der.primitive?_octetString hvalue]
  rfl

theorem write_ne_nil (x : Extension) :
  x.write ≠ []
  := Der.write_ne_nil _ _

end Extension

/-- The algorithm is an identifier with at most one parameter. -/
def PublicKey.Regular (k : PublicKey) : Prop :=
  ∃ oid parameters, k.algorithm = Der.oid oid ++ parameters
    ∧ (parameters = [] ∨ ∃ (tag : UInt8) (content : Octets),
      tag.toNat % 32 ≠ 31 ∧ parameters = Der.write tag content)

namespace Certificate

/-- The identifier of an algorithm is read back with its parameter. -/
theorem algorithm?_sequence {oid parameters : Octets}
    (hparameters : parameters = [] ∨ ∃ (tag : UInt8) (content : Octets),
      tag.toNat % 32 ≠ 31 ∧ parameters = Der.write tag content)
    (hshort : Der.Short (Der.sequence [Der.oid oid ++ parameters])) (rest : Octets) :
  algorithm? (Der.sequence [Der.oid oid ++ parameters] ++ rest) = some (oid, parameters, rest)
  := by
  have hitem : Der.Short (Der.oid oid ++ parameters) := hshort.of_mem_sequence (by simp)
  have hitems : Der.Short [Der.oid oid ++ parameters].flatten := hshort.of_write
  have hoid : Der.Short oid := hitem.left.of_write
  simp only [algorithm?, Der.tagged?_sequence hitems, Option.bind_eq_bind, Option.bind_some,
    List.flatten_cons, List.flatten_nil, List.append_nil, Der.primitive?_oid hoid]
  rcases hparameters with rfl | ⟨tag, content, htag, rfl⟩
  · rfl
  · have helement := Der.element?_write tag htag hitem.right.of_write []
    rw [List.append_nil] at helement
    have hne : (Der.write tag content).isEmpty = false := rfl
    rw [if_neg (by rw [hne]; decide), helement]
    simp

theorem publicKey?_write {k : PublicKey} (h : k.Regular) (hshort : Der.Short (writePublicKey k))
    (rest : Octets) :
  publicKey? (writePublicKey k ++ rest) = some (k, rest)
  := by
  obtain ⟨algorithm, bits⟩ := k
  obtain ⟨oid, parameters, halgorithm, hparameters⟩ := h
  obtain rfl : algorithm = Der.oid oid ++ parameters := halgorithm
  have hitems : Der.Short [Der.sequence [Der.oid oid ++ parameters], Der.bitString bits].flatten :=
    hshort.of_write
  have hidentifier : Der.Short (Der.sequence [Der.oid oid ++ parameters]) :=
    hitems.of_mem_flatten (by simp)
  have hbits : Der.Short (Der.bitString bits) := hitems.of_mem_flatten (by simp)
  simp only [publicKey?, writePublicKey, Der.tagged?_sequence hitems, Option.bind_eq_bind,
    Option.bind_some, List.flatten_cons, List.flatten_nil,
    algorithm?_sequence hparameters hidentifier, Der.bitString?_bitString hbits.of_write]
  rfl

/-- The version of a certificate is passed over. -/
theorem afterVersion?_write (rest : Octets) :
  afterVersion? (Der.write 0xA0 (Der.natural 2) ++ rest) = some rest
  := by
  have hshort : Der.Short (Der.natural 2) := by decide
  have hheader := Der.header?_write 0xA0 (by decide) hshort rest
  have hnumber : Der.primitive? Der.integerTag (Der.natural 2 ++ rest)
      = some (Der.naturalContent 2, rest) :=
    Der.primitive?_write 0x02 rfl (by decide) rfl (by decide) rest
  have hnatural : Der.natural? (Der.naturalContent 2) = some 2 := by decide
  have htwo : 2 < Nat.pow 2 32 := by decide
  simp only [afterVersion?, hheader, Option.bind_eq_bind, Option.bind_some, hnumber, hnatural,
    if_pos htwo]
  rfl

/-- The years of the start and of the end of the validity are 0 to 9999. -/
def Dated (c : Certificate) : Prop :=
  (0 ≤ (Instant.ofSeconds c.notBefore).date.year ∧ (Instant.ofSeconds c.notBefore).date.year < 10000)
    ∧ 0 ≤ (Instant.ofSeconds c.notAfter).date.year ∧ (Instant.ofSeconds c.notAfter).date.year < 10000

theorem validity?_write {c : Certificate} (h : c.Dated)
    (hshort : Der.Short (Der.sequence [CertificateTime.write c.notBefore,
      CertificateTime.write c.notAfter])) (rest : Octets) :
  validity? (Der.sequence [CertificateTime.write c.notBefore, CertificateTime.write c.notAfter] ++ rest)
    = some (c.notBefore, c.notAfter, rest)
  := by
  have hitems := hshort.of_write
  simp only [validity?, Der.tagged?_sequence hitems, Option.bind_eq_bind, Option.bind_some,
    List.flatten_cons, List.flatten_nil, CertificateTime.read?_write h.1.1 h.1.2,
    CertificateTime.read?_write h.2.1 h.2.2]
  rfl

/-- There are no identifiers of issuer and subject before the extensions. -/
theorem afterUniqueId?_extensions {tag : Nat} (htag : tag ≠ 3) {content : Octets}
    (hshort : Der.Short content) :
  afterUniqueId? tag (Der.write 0xA3 content) = some (Der.write 0xA3 content)
  := by
  have hheader := Der.header?_write 0xA3 (by decide) hshort []
  rw [List.append_nil] at hheader
  have hother : ¬ ((0xA3 : UInt8).toNat / 64 = 2 ∧ (0xA3 : UInt8).toNat % 32 = tag) :=
    fun h => htag h.2.symm
  simp only [afterUniqueId?, hheader, if_neg hother]

theorem extensions?_write {extensions : List Extension}
    (hshort : Der.Short (Der.write 0xA3 (Der.sequence (extensions.map Extension.write)))) :
  extensions? (Der.write 0xA3 (Der.sequence (extensions.map Extension.write))) = some extensions
  := by
  have hitems : Der.Short (extensions.map Extension.write).flatten := hshort.of_write.of_write
  have hheader := Der.header?_write 0xA3 (by decide) hshort.of_write []
  rw [List.append_nil, List.append_nil] at hheader
  have hsequence := Der.tagged?_sequence hitems []
  rw [List.append_nil] at hsequence
  have hall : Der.all? Extension.read? (extensions.map Extension.write).flatten = some extensions := by
    apply Der.all?_flatMap Extension.write
    · intro x hx rest
      apply Extension.read?_write
      apply hitems.of_mem_flatten (List.mem_map_of_mem hx)
    · rfl
    · intro x _
      apply x.write_ne_nil
  have hne : (Der.write 0xA3 (Der.sequence (extensions.map Extension.write))).isEmpty = false := rfl
  have htag : ¬ (0xA3 : UInt8).toNat % 32 ≠ 3 := by decide
  rw [extensions?, if_neg (by rw [hne]; decide)]
  simp only [hheader, Option.bind_eq_bind, Option.bind_some, if_neg htag, hsequence,
    List.isEmpty_nil, Bool.not_true, Bool.false_eq_true, if_false, hall]

/-! ### Whole certificates -/

/-- Names, public key and validity are such that they are read back. -/
structure Regular (c : Certificate) : Prop where
  issuer : c.issuer.Regular
  subject : c.subject.Regular
  publicKey : c.publicKey.Regular
  dated : c.Dated

/-- The parts of what is signed of a certificate. -/
def bodyItems (c : Certificate) : List Octets :=
  [Der.write 0xA0 (Der.natural 2), Der.write 0x02 c.serial,
    Der.sequence [Der.oid c.signatureAlgorithm], c.issuer.write,
    Der.sequence [CertificateTime.write c.notBefore, CertificateTime.write c.notAfter],
    c.subject.write, writePublicKey c.publicKey,
    Der.write 0xA3 (Der.sequence (c.extensions.map Extension.write))]

/-- The parts of a certificate. -/
def items (c : Certificate) : List Octets :=
  [Der.sequence c.bodyItems, Der.sequence [Der.oid c.signatureAlgorithm], Der.bitString c.signature]

theorem write_eq (c : Certificate) :
  c.write = Der.sequence c.items
  := rfl

/-- A regular certificate is read back. -/
theorem read?_write {c : Certificate} (h : c.Regular) (hshort : Der.Short c.items.flatten) :
  read? c.write = some c
  := by
  have hmem : ∀ item ∈ c.items, Der.Short item := fun item hitem => hshort.of_mem_flatten hitem
  have hbody : Der.Short c.bodyItems.flatten :=
    (hmem (Der.sequence c.bodyItems) (by simp [items])).of_write
  have hpart : ∀ item ∈ c.bodyItems, Der.Short item := fun item hitem => hbody.of_mem_flatten hitem
  have halgorithm : Der.Short (Der.sequence [Der.oid c.signatureAlgorithm]) :=
    hmem _ (by simp [items])
  have hsignature : Der.Short (Der.bitString c.signature) := hmem _ (by simp [items])
  have hserial : Der.Short (Der.write 0x02 c.serial) := hpart _ (by simp [bodyItems])
  have hissuer : Der.Short c.issuer.write := hpart _ (by simp [bodyItems])
  have hvalidity : Der.Short (Der.sequence [CertificateTime.write c.notBefore,
      CertificateTime.write c.notAfter]) := hpart _ (by simp [bodyItems])
  have hsubject : Der.Short c.subject.write := hpart _ (by simp [bodyItems])
  have hkey : Der.Short (writePublicKey c.publicKey) := hpart _ (by simp [bodyItems])
  have hextensions : Der.Short (Der.write 0xA3 (Der.sequence (c.extensions.map Extension.write))) :=
    hpart _ (by simp [bodyItems])
  have houter := Der.tagged?_sequence hshort []
  rw [List.append_nil] at houter
  have halgorithm? : ∀ rest, algorithm? (Der.sequence [Der.oid c.signatureAlgorithm] ++ rest)
      = some (c.signatureAlgorithm, [], rest) := by
    intro rest
    rw [← List.append_nil (Der.oid c.signatureAlgorithm)] at halgorithm ⊢
    apply algorithm?_sequence (.inl rfl) halgorithm rest
  have hserial? : ∀ rest, Der.tagged? Der.integerTag (Der.write 0x02 c.serial ++ rest)
      = some (c.serial, rest) :=
    Der.tagged?_write 0x02 rfl (by decide) hserial.of_write
  rw [read?, write_eq, houter]
  simp only [Option.bind_eq_bind, Option.bind_some]
  rw [items, List.flatten_cons, Der.tagged?_sequence hbody]
  simp only [Option.bind_some, List.flatten_cons, List.flatten_nil]
  simp only [bodyItems, List.flatten_cons, List.flatten_nil, afterVersion?_write, Option.bind_some,
    hserial?, halgorithm?, Name.read?_write h.issuer hissuer, validity?_write h.dated hvalidity,
    Name.read?_write h.subject hsubject, publicKey?_write h.publicKey hkey, List.append_nil,
    afterUniqueId?_extensions (show 1 ≠ 3 by decide) hextensions.of_write,
    afterUniqueId?_extensions (show 2 ≠ 3 by decide) hextensions.of_write,
    extensions?_write hextensions]
  have hbits := Der.bitString?_bitString hsignature.of_write []
  rw [List.append_nil] at hbits
  rw [hbits]
  rfl

/-- Only a certificate whose octets are short is read. -/
theorem short_of_read?_write {c c' : Certificate} (h : read? c.write = some c') :
  Der.Short c.items.flatten
  := by
  unfold read? at h
  cases houter : Der.tagged? Der.sequenceTag c.write with
  | none =>
    rw [houter] at h
    cases h
  | some p =>
    unfold Der.tagged? at houter
    cases helement : Der.element? c.write with
    | none =>
      rw [helement] at houter
      cases houter
    | some q =>
      rw [← List.append_nil c.write] at helement
      apply Der.short_of_element?_write (by decide) helement

/-- What is read from the octets of a regular certificate is that certificate. -/
theorem eq_of_read?_write {c c' : Certificate} (h : c.Regular) (hread : read? c.write = some c') :
  c' = c
  := by
  rw [read?_write h (short_of_read?_write hread)] at hread
  apply (Option.some.inj hread).symm

end Certificate

end CertKeeper
