import CertKeeper.Certificate.Authority
import CertKeeper.Proofs.Certificate.Reading

/-!
# What issued certificates say

A certificate that signs itself is one of an authority (`CertificateInfo.ofCertificate_selfSigned`),
and a leaf certificate serves the request that it was issued for: it has the common name and
the host names of the request, and the use that goes with them (`LeafRequest.ServedBy`).
-/

namespace CertKeeper

namespace AltName

/-- Host names are read back. -/
theorem ofValue?_valueOfHostnames {hostnames : List String}
    (hshort : Der.Short (valueOfHostnames hostnames)) :
  ofValue? (valueOfHostnames hostnames) = some (hostnames.map dns)
  := by
  have hitems : Der.Short (hostnames.map (fun host => Der.write 0x82 (Octets.ofText host))).flatten :=
    hshort.of_write
  have hread := Der.tagged?_sequence hitems []
  rw [List.append_nil] at hread
  have hall : ∀ hosts : List String,
      Der.Short (hosts.map (fun host => Der.write 0x82 (Octets.ofText host))).flatten →
      Der.all? read? (hosts.map (fun host => Der.write 0x82 (Octets.ofText host))).flatten
        = some (hosts.map dns) := by
    intro hosts hhosts
    have hmap : (hosts.map (fun host => Der.write 0x82 (Octets.ofText host))).flatten
        = (hosts.map dns).flatMap
          (fun name => Der.write 0x82 (Octets.ofText (name.hostname?.getD ""))) := by
      rw [List.flatMap_map]
      rfl
    rw [hmap]
    apply Der.all?_flatMap
      (fun name : AltName => Der.write 0x82 (Octets.ofText (name.hostname?.getD "")))
    · intro name hname rest
      obtain ⟨host, hhost, rfl⟩ := List.mem_map.mp hname
      have hitem : Der.Short (Der.write 0x82 (Octets.ofText host)) :=
        hhosts.of_mem_flatten (List.mem_map_of_mem hhost)
      have helement := Der.element?_write 0x82 (by decide) hitem.of_write rest
      have hdns : ofElement? (Der.written 0x82 (Octets.ofText host)) = some (dns host) := by
        show (Octets.text? (Octets.ofText host)).map dns = some (dns host)
        rw [Octets.text?_ofText]
        rfl
      simp only [read?, hostname?, Option.getD_some, helement, Option.bind_eq_bind, Option.bind_some,
        hdns]
      rfl
    · rfl
    · intro name _
      apply Der.write_ne_nil
  simp only [ofValue?, valueOfHostnames, hread, Option.bind_eq_bind, Option.bind_some, hall _ hitems]

end AltName

namespace CertificateInfo

theorem ofCertificate_selfSigned (commonName : String) (v : Validity) (key : PrivateKey) :
  ofCertificate (Certificate.selfSigned commonName v key)
    = .ok ⟨commonName, commonName, .ofSeconds v.notBefore, .ofSeconds v.notAfter, [], true, false, false⟩
  := by
  have haltNames : (Certificate.selfSigned commonName v key).extension? Extension.altNamesOid
      AltName.ofValue? = some none := rfl
  have hsubject : (Certificate.selfSigned commonName v key).subject.commonName = commonName :=
    Name.commonName_ofCommonName commonName
  have hissuer : (Certificate.selfSigned commonName v key).issuer.commonName = commonName :=
    Name.commonName_ofCommonName commonName
  rw [ofCertificate, haltNames]
  simp only [hsubject, hissuer]
  rfl

end CertificateInfo

/-- A certificate serves a request. -/
structure LeafRequest.ServedBy (r : LeafRequest) (info : CertificateInfo) : Prop where
  commonName : r.commonName = .ok info.commonName
  dnsNames : info.dnsNames = r.hostnames
  serverAuth : info.serverAuth = decide (r.extendedUse = ExtendedUsage.serverAuthOid)
  clientAuth : info.clientAuth = decide (r.extendedUse = ExtendedUsage.clientAuthOid)

namespace Certificate

variable {issuer : Name} {issuerKey : Octets} {signer : PrivateKey} {commonName : String}
variable {request : LeafRequest} {v : Validity} {key : PublicKey}

/-- The extended use of a leaf certificate. -/
theorem extendedUsage_leaf :
  (leaf issuer issuerKey signer commonName request v key).extension? Extension.extendedUsageOid
      ExtendedUsage.ofValue?
    = some (some ⟨false, decide (request.extendedUse = ExtendedUsage.serverAuthOid),
      decide (request.extendedUse = ExtendedUsage.clientAuthOid)⟩)
  := by
  have hextensions : (leaf issuer issuerKey signer commonName request v key).extensionsOf
      Extension.extendedUsageOid
      = [⟨Extension.extendedUsageOid, false, ExtendedUsage.valueOf request.extendedUse⟩] := by
    simp only [extensionsOf, leaf]
    split <;> rfl
  rw [extension?, hextensions]
  cases request <;> rfl

/-- The host names of a leaf certificate. -/
theorem altNames_leaf
    (hshort : Der.Short (AltName.valueOfHostnames request.hostnames)) :
  (leaf issuer issuerKey signer commonName request v key).extension? Extension.altNamesOid
      AltName.ofValue?
    = some (if request.hostnames.isEmpty then none else some (request.hostnames.map AltName.dns))
  := by
  by_cases hempty : request.hostnames.isEmpty
  · have hextensions : (leaf issuer issuerKey signer commonName request v key).extensionsOf
        Extension.altNamesOid = [] := by
      simp only [extensionsOf, leaf, if_pos hempty]
      rfl
    rw [extension?, hextensions, if_pos hempty]
  · have hextensions : (leaf issuer issuerKey signer commonName request v key).extensionsOf
        Extension.altNamesOid
        = [⟨Extension.altNamesOid, false, AltName.valueOfHostnames request.hostnames⟩] := by
      simp only [extensionsOf, leaf, if_neg hempty]
      rfl
    rw [extension?, hextensions, if_neg hempty]
    simp only [AltName.ofValue?_valueOfHostnames hshort]
    rfl

/-- The octets of the host names are part of those of a leaf certificate. -/
theorem short_valueOfHostnames
    (hshort : Der.Short (leaf issuer issuerKey signer commonName request v key).items.flatten) :
  Der.Short (AltName.valueOfHostnames request.hostnames)
  := by
  by_cases hempty : request.hostnames.isEmpty
  · rw [List.isEmpty_iff.mp hempty]
    decide
  · obtain ⟨c, hc⟩ : ∃ c, c = leaf issuer issuerKey signer commonName request v key := ⟨_, rfl⟩
    have hextension : (⟨Extension.altNamesOid, false, AltName.valueOfHostnames request.hostnames⟩
        : Extension) ∈ c.extensions := by
      rw [hc]
      simp [leaf, hempty]
    rw [← hc] at hshort
    have hbody : Der.Short (Der.sequence c.bodyItems) := hshort.of_mem_flatten (by simp [items])
    have hextensions : Der.Short (Der.write 0xA3 (Der.sequence (c.extensions.map Extension.write))) :=
      hbody.of_mem_sequence (by simp [bodyItems])
    have hwrite : Der.Short (Extension.write
        ⟨Extension.altNamesOid, false, AltName.valueOfHostnames request.hostnames⟩) :=
      hextensions.of_write.of_mem_sequence (List.mem_map_of_mem hextension)
    have hvalue : Der.Short (Der.octetString (AltName.valueOfHostnames request.hostnames)) :=
      hwrite.of_mem_sequence (by simp)
    apply hvalue.of_write

/-- What a leaf certificate says. -/
theorem info_leaf
    (hshort : Der.Short (leaf issuer issuerKey signer commonName request v key).items.flatten) :
  CertificateInfo.ofCertificate (leaf issuer issuerKey signer commonName request v key)
    = .ok ⟨commonName, issuer.commonName, .ofSeconds v.notBefore, .ofSeconds v.notAfter,
      request.hostnames, false, decide (request.extendedUse = ExtendedUsage.serverAuthOid),
      decide (request.extendedUse = ExtendedUsage.clientAuthOid)⟩
  := by
  have hsubject : (leaf issuer issuerKey signer commonName request v key).subject.commonName
      = commonName := Name.commonName_ofCommonName commonName
  have hconstraints : (leaf issuer issuerKey signer commonName request v key).extension?
      Extension.constraintsOid BasicConstraints.ofValue? = some none := by
    have hextensions : (leaf issuer issuerKey signer commonName request v key).extensionsOf
        Extension.constraintsOid = [] := by
      simp only [extensionsOf, leaf]
      split <;> rfl
    rw [extension?, hextensions]
  have hnames : ((if request.hostnames.isEmpty then none
      else some (request.hostnames.map AltName.dns)).getD []).filterMap AltName.hostname?
      = request.hostnames := by
    split
    · rename_i h
      rw [List.isEmpty_iff.mp h]
      rfl
    · rw [Option.getD_some, List.filterMap_map]
      apply List.filterMap_some
  rw [CertificateInfo.ofCertificate, altNames_leaf (short_valueOfHostnames hshort)]
  simp only [hsubject, hconstraints, extendedUsage_leaf, hnames]
  rfl

end Certificate

end CertKeeper
