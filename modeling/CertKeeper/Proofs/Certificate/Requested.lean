import CertKeeper.Proofs.Certificate.Size

/-!
# Certificates as requested

What a request asks an authority for is `LeafRequest.expected`: the common name and the host names, one
use of the key, and a validity that starts with the second of the clock and lasts the whole seconds of
the lifetime. An authority that was generated says what it was generated for and is loaded from its own
texts, and what it signs says what was expected (`Authority.issued_as_requested`). Both are read from the
texts that were written, so the certificates that are written are the ones that are read. A leaf is no
authority, so it is never loaded as one.
-/

namespace CertKeeper

/-- What the certificate for a request has to say. -/
def LeafRequest.expected (issuer : String) (now : Instant) (lifetime : Duration) :
    LeafRequest → Option CertificateInfo
  | serving [] => none
  | serving (first :: rest) => some {
      commonName := first
      issuerCommonName := issuer
      notBefore := .ofSeconds now.seconds
      notAfter := .ofSeconds (now.seconds + lifetime.seconds)
      dnsNames := first :: rest
      isAuthority := false
      serverAuth := true
      clientAuth := false }
  | client user => some {
      commonName := user
      issuerCommonName := issuer
      notBefore := .ofSeconds now.seconds
      notAfter := .ofSeconds (now.seconds + lifetime.seconds)
      dnsNames := []
      isAuthority := false
      serverAuth := false
      clientAuth := true }

/-- What the certificate of a new authority has to say. -/
def CertificateInfo.ofAuthority (commonName : String) (now : Instant) (lifetime : Duration) :
    CertificateInfo where
  commonName := commonName
  issuerCommonName := commonName
  notBefore := .ofSeconds now.seconds
  notAfter := .ofSeconds (now.seconds + lifetime.seconds)
  dnsNames := []
  isAuthority := true
  serverAuth := false
  clientAuth := false

namespace Authority

variable {ca : Authority} {request : LeafRequest} {issued : IssuedCertificate} {key : KeyPair}
variable {commonName issuer : String} {now later : Instant} {lifetime length : Duration} {v : Validity}
variable {signer : PrivateKey} {cert : Certificate} {seed : Nat}

/-! ### What is issued -/

/-- What an authority issues says what was expected of it. -/
theorem expected_of_sign (hsigner : ca.signer = .ok (signer, cert, Name.ofCommonName issuer))
    (h : ca.sign request now lifetime (KeyPair.generate seed) = .ok issued) :
  request.expected issuer now lifetime = some issued.info
  := by
  obtain ⟨commonName, v, signer', cert', name, c, hprepare, hc, hshort, -, hgives, -⟩ :=
    exists_leaf_of_sign h
  obtain ⟨hcommonName, hv, -, hsigner'⟩ := prepare_eq_ok hprepare
  obtain ⟨rfl, -⟩ := Validity.starting_eq_ok hv
  rw [hsigner] at hsigner'
  cases hsigner'
  rw [hc] at hgives hshort
  rw [Certificate.info_leaf hshort, Name.commonName_ofCommonName] at hgives
  rw [← Except.ok.inj hgives]
  cases request with
  | serving hostnames =>
    cases hostnames with
    | nil => cases hcommonName
    | cons first rest =>
      cases hcommonName
      rfl
  | client user =>
    cases hcommonName
    rfl

/-- What is expected of a leaf is no authority. -/
theorem isAuthority_expected {info : CertificateInfo}
    (h : request.expected issuer now lifetime = some info) :
  info.isAuthority = false
  := by
  unfold LeafRequest.expected at h
  split at h
  · cases h
  · cases h
    rfl
  · cases h
    rfl

/-- A certificate with its key is not loaded if it may not issue others. -/
theorem ofPem_leaf {certPem keyPem : String} {info : CertificateInfo}
    (hgenuine : TrustedCertificate.Genuine ⟨certPem, info⟩)
    (hkey : (PrivateKey.ofPem? keyPem).isSome) (hleaf : info.isAuthority = false) :
  ofPem certPem keyPem = .error (.invalidCertificate (.notAuthority info.commonName))
  := by
  have hparse := parseCertificates_pem hgenuine
  obtain ⟨key, hkey⟩ := Option.isSome_iff_exists.mp hkey
  simp only [ofPem, hkey, hparse, hleaf, Bool.false_eq_true, if_false]

/-- What an authority issues is not loaded as one. -/
theorem ofPem_of_sign (h : ca.sign request now lifetime (KeyPair.generate seed) = .ok issued)
    (hleaf : issued.info.isAuthority = false) :
  ofPem issued.certPem issued.keyPem
    = .error (.invalidCertificate (.notAuthority issued.info.commonName))
  := by
  obtain ⟨_, _, _, _, _, _, -, -, -, -, -, hkeyPem⟩ := exists_leaf_of_sign h
  apply ofPem_leaf (genuine_of_sign h) _ hleaf
  rw [hkeyPem, KeyPair.ofPem?_generate]
  rfl

/-! ### What is refused -/

/-- Without host names nothing is issued for them. -/
theorem sign_without_hostnames (ca : Authority) (now : Instant) (lifetime : Duration) (key : KeyPair) :
  ca.sign (.serving []) now lifetime key = .error (.error (.other .noHostname))
  := rfl

/-- For a host name outside ASCII nothing is issued. If the validity is possible, then that is an error. -/
theorem sign_outside_ascii {hostnames : List String} {host : String} {c : Char}
    (hhost : host ∈ hostnames) (hc : c ∈ host.toList) (hascii : 128 ≤ c.toNat) (ca : Authority)
    (now : Instant) (lifetime : Duration) (key : KeyPair) :
  ∃ stop, ca.sign (.serving hostnames) now lifetime key = .error stop
    ∧ (Validity.Possible now lifetime → ∃ e, stop = .error e)
  := by
  have hrefused : LeafRequest.checkHostnames (.serving hostnames)
      = .error (.certificate "host name outside ASCII") := by
    rw [LeafRequest.checkHostnames, if_neg]
    intro hall
    have hchars := List.all_eq_true.mp hall host hhost
    have hchar := of_decide_eq_true (List.all_eq_true.mp hchars c hc)
    omega
  cases hostnames with
  | nil => exact ⟨_, rfl, fun _ => ⟨_, rfl⟩⟩
  | cons first rest =>
    cases hv : Validity.starting now lifetime with
    | error stop =>
      refine ⟨stop, ?_, ?_⟩
      · rw [sign, prepare, hv]
        rfl
      · intro hpossible
        rw [Validity.starting_eq hpossible] at hv
        cases hv
    | ok v =>
      refine ⟨.error (.certificate "host name outside ASCII"), ?_, fun _ => ⟨_, rfl⟩⟩
      rw [sign, prepare, hv, hrefused]
      rfl

/-! ### What can be issued -/

/-- An authority can be generated, if its name fits into memory. -/
theorem exists_generate_of_size (hv : Validity.starting now lifetime = .ok v)
    (hsize : commonName.utf8ByteSize ≤ 9000000000000000000) (seed : Nat) :
  ∃ ca, generate commonName v (KeyPair.generate seed) = .ok ca
  := by
  apply exists_generate hv
  have hlength := Certificate.length_selfSigned_le hv commonName seed
  have hlarge : Nat.pow 2 64 = 18446744073709551616 := rfl
  unfold Der.Short
  omega

/-- There is a sound authority for every name that fits into memory, and for every time and lifetime that a
certificate can be issued for. -/
theorem exists_sound (hpossible : Validity.Possible now lifetime)
    (hsize : commonName.utf8ByteSize ≤ 9000000000000000000) :
  ∃ ca : Authority, ca.Sound ∧ ca.info = .ofAuthority commonName now lifetime
  := by
  have hv := Validity.starting_eq hpossible
  obtain ⟨ca, hca⟩ := exists_generate_of_size hv hsize 0
  exact ⟨ca, generate_eq_ok hv hca⟩

/-- An authority that was generated can sign what is asked for properly, if the names fit into memory. -/
theorem exists_sign_of_generate {subject : String} (hv : Validity.starting now lifetime = .ok v)
    (h : generate commonName v (KeyPair.generate seed) = .ok ca)
    (hsubject : request.commonName = .ok subject) (hhostnames : request.checkHostnames = .ok ())
    (hpossible : Validity.Possible later length)
    (hsize : commonName.utf8ByteSize + subject.utf8ByteSize + AltName.room request.hostnames
      ≤ 18000000000000000000) :
  (∃ prepared, ca.prepare request later length = .ok prepared)
    ∧ ∀ seed', ∃ issued, ca.sign request later length (KeyPair.generate seed') = .ok issued
  := by
  obtain ⟨-, -, hsigner⟩ := of_generate hv h
  have hstarting := Validity.starting_eq hpossible
  have hprepare := prepare_eq hsubject hstarting hhostnames hsigner
  refine ⟨⟨_, hprepare⟩, ?_⟩
  intro seed'
  apply exists_sign hprepare
  have hwrite := Name.length_write_ofCommonName_le commonName
  have hleaf := Certificate.length_leaf_le hstarting (Name.ofCommonName commonName)
    (Certificate.selfSigned commonName v (KeyPair.generate seed).key).keyIdentifier seed subject request
    seed'
  have hidentifier := Certificate.length_keyIdentifier_selfSigned commonName v (KeyPair.generate seed).key
  have hlarge : Nat.pow 2 64 = 18446744073709551616 := rfl
  unfold Der.Short
  omega

/-! ### Read back -/

/-- An authority that was generated says what it was generated for and is loaded from its texts as it is.
What it signs says what was requested of it and is read back from its text, and is no authority. It signs
nothing for host names that are missing or outside ASCII. -/
theorem issued_as_requested (hv : Validity.starting now lifetime = .ok v)
    (h : generate commonName v (KeyPair.generate seed) = .ok ca) :
  (ca.info = .ofAuthority commonName now lifetime ∧ ofPem ca.certPem ca.keyPem = .ok ca)
    ∧ (∀ request later length seed' issued,
      ca.sign request later length (KeyPair.generate seed') = .ok issued →
        request.expected commonName later length = some issued.info
          ∧ parseCertificates issued.certPem = .ok [⟨issued.certPem, issued.info⟩]
          ∧ ofPem issued.certPem issued.keyPem
            = .error (.invalidCertificate (.notAuthority issued.info.commonName)))
    ∧ (∀ later length key,
      ca.sign (.serving []) later length key = .error (.error (.other .noHostname)))
    ∧ ∀ hostnames, (∃ host ∈ hostnames, ∃ c ∈ host.toList, 128 ≤ c.toNat) → ∀ later length key,
      ∃ stop, ca.sign (.serving hostnames) later length key = .error stop
        ∧ (Validity.Possible later length → ∃ e, stop = .error e)
  := by
  obtain ⟨hloaded, hinfo, hsigner⟩ := of_generate hv h
  obtain ⟨rfl, -⟩ := Validity.starting_eq_ok hv
  refine ⟨⟨hinfo, ofPem_self hloaded⟩, ?_, ?_, ?_⟩
  · intro request later length seed' issued hsign
    have hexpected := expected_of_sign hsigner hsign
    refine ⟨hexpected, parseCertificates_pem (genuine_of_sign hsign), ?_⟩
    apply ofPem_of_sign hsign (isAuthority_expected hexpected)
  · intro later length key
    apply sign_without_hostnames
  · rintro hostnames ⟨host, hhost, c, hc, hascii⟩ later length key
    apply sign_outside_ascii hhost hc hascii

/-- An authority with a name outside ASCII that is valid from before 1950 till after 2050 and longer than
whole seconds, and a certificate with two host names that it issues at the end of the year 2049. -/
theorem issued_across_centuries :
  ∃ ca issued, ca.info = .ofAuthority "ключ@-631152001" ⟨-631152001, 999999999, by decide⟩
      ⟨3200000000 * nanosPerSecond + 1, by decide⟩
    ∧ ofPem ca.certPem ca.keyPem = .ok ca
    ∧ ca.sign (.serving ["b.pki.svc", "a"]) (.ofSeconds 2524607999) ⟨nanosPerSecond, by decide⟩
      (KeyPair.generate 1) = .ok issued
    ∧ issued.info = {
        commonName := "b.pki.svc"
        issuerCommonName := "ключ@-631152001"
        notBefore := .ofSeconds 2524607999
        notAfter := .ofSeconds 2524608000
        dnsNames := ["b.pki.svc", "a"]
        isAuthority := false
        serverAuth := true
        clientAuth := false }
    ∧ ofPem issued.certPem issued.keyPem = .error (.invalidCertificate (.notAuthority "b.pki.svc"))
  := by
  have hpossible : Validity.Possible ⟨-631152001, 999999999, by decide⟩
      ⟨3200000000 * nanosPerSecond + 1, by decide⟩ := by
    unfold Validity.Possible
    decide
  have hpossible' : Validity.Possible (.ofSeconds 2524607999) ⟨nanosPerSecond, by decide⟩ := by
    unfold Validity.Possible
    decide
  obtain ⟨v, hv⟩ : ∃ v, Validity.starting _ _ = .ok v := ⟨_, Validity.starting_eq hpossible⟩
  obtain ⟨ca, hca⟩ : ∃ ca, generate "ключ@-631152001" v (KeyPair.generate 0) = .ok ca := by
    apply exists_generate_of_size hv
    decide
  have hcommonName : (LeafRequest.serving ["b.pki.svc", "a"]).commonName = .ok "b.pki.svc" := rfl
  obtain ⟨issued, hissued⟩ := (exists_sign_of_generate hv hca hcommonName (by decide) hpossible'
    (by decide)).2 1
  obtain ⟨⟨hinfo, hload⟩, hsigned, -⟩ := issued_as_requested hv hca
  obtain ⟨hexpected, -, hleaf⟩ := hsigned _ _ _ _ _ hissued
  have hsays := (Option.some.inj hexpected).symm
  refine ⟨ca, issued, hinfo, hload, hissued, hsays, ?_⟩
  rw [hleaf, hsays]

end Authority

end CertKeeper
