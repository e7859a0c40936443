import CertKeeper.Proofs.Certificate.Requested
import CertKeeper.Proofs.Manager.Guard
import CertKeeper.Proofs.Manager.Kept

/-!
# What can be issued

A definition is `Issuable` at a time if its certificates can be issued then. As long as its objects
are in custody, the check of its signer does not stop, and neither does the check of its leaf: the
recorded validities are those of certificates that were issued, or have been outdated. So each of
them can be replaced (`Manager.signerAble`, `Manager.leafAble`).
-/

namespace CertKeeper

/-- A text of fewer octets than any machine can hold. -/
def Moderate (text : String) : Prop := text.utf8ByteSize < 1000000000000000000

instance (text : String) : Decidable (Moderate text) := inferInstanceAs (Decidable (_ < _))

/-- A time that a clock shows from the year 0 on. -/
structure Shown (t : Instant) : Prop where
  civil : t.Civil
  from_zero : Validity.startOfYear 0 ≤ t.seconds

/-- The whole seconds from the start of 1970 on are shown. -/
theorem shown_ofSeconds (n : Nat) :
  Shown (Instant.ofSeconds n)
  := by
  constructor
  · intro hleap
    cases hleap
  · show Validity.startOfYear 0 ≤ (n : Int)
    rw [Validity.startOfYear_zero]
    omega

/-- An authority that was made for a signer can issue whatever is not too long. -/
theorem Authority.MadeFor.exists_sign {ref : ResourceRef} {ca : Authority} {request : LeafRequest}
    {commonName : String} {now : Instant} {lifetime : Duration} (h : ca.MadeFor Shown ref)
    (hns : Moderate ref.ns) (hname : Moderate ref.name)
    (hcommonName : request.commonName = .ok commonName)
    (hhostnames : request.checkHostnames = .ok ()) (hpossible : Validity.Possible now lifetime)
    (hsize : commonName.utf8ByteSize
      + AltName.room request.hostnames ≤ 9000000000000000000) :
  (∃ prepared, ca.prepare request now lifetime = .ok prepared)
    ∧ ∀ seed, ∃ issued, ca.sign request now lifetime (KeyPair.generate seed) = .ok issued
  := by
  obtain ⟨r, named, issued, _, v, signerSeed, rfl, hshown, hlater, hv, hca⟩ := h
  obtain ⟨-, hfrom, hto⟩ := Validity.starting_eq_ok hv
  have hseconds : ¬ issued.seconds < named.seconds := by
    intro hlt
    apply hlater
    rw [Instant.before_iff]
    exact .inl hlt
  have hsubject := r.utf8ByteSize_commonName_le hshown.from_zero (by omega)
  apply Authority.exists_sign_of_generate hv hca hcommonName hhostnames hpossible
  unfold Moderate at hns hname
  omega

namespace Manager

variable {definitions : List Definition} {h : History} {d : Definition} {bundle : ResourceRef}
variable {leaf : Leaf} {ca : Authority} {s : Secret} {now : Instant}

/-- The certificate of a leaf can be issued at a time. -/
structure LeafIssuable (now : Instant) (leaf : Leaf) : Prop where
  policy : leaf.policy.Sensible
  possible : Validity.Possible now leaf.policy.lifetime
  ascii : ∀ service, leaf.identity = .service service →
    IssuerName.isAscii service ∧ IssuerName.isAscii leaf.secret.ns
  moderate : Moderate leaf.secret.ns ∧ match leaf.identity with
    | .service name => Moderate name
    | .user name => Moderate name

/-- The certificates of a definition can be issued at a time. -/
structure Issuable (now : Instant) (d : Definition) : Prop where
  policy : d.signerPolicy.Sensible
  possible : Validity.Possible now d.signerPolicy.lifetime
  moderate : Moderate d.signer.ns ∧ Moderate d.signer.name
  leaf : ∀ bundle leaf, d.stages = .ok (.full bundle leaf) → LeafIssuable now leaf

theorem Issuable.sensible (hd : Issuable now d) :
  Sensible d
  := ⟨hd.policy, fun bundle leaf hstages => (hd.leaf bundle leaf hstages).policy⟩

/-- The request for the certificate of a leaf can be met. -/
theorem LeafIssuable.request (hleaf : LeafIssuable now leaf) :
  ∃ commonName, (leafRequest leaf).commonName = .ok commonName
    ∧ (leafRequest leaf).checkHostnames = .ok ()
    ∧ commonName.utf8ByteSize
      + AltName.room (leafRequest leaf).hostnames ≤ 9000000000000000000
  := by
  have hns := hleaf.moderate.1
  have hidentity := hleaf.moderate.2
  have hascii := hleaf.ascii
  unfold Moderate at hns hidentity
  unfold leafRequest
  cases heq : leaf.identity with
  | user user =>
    rw [heq] at hidentity
    refine ⟨user, rfl, rfl, ?_⟩
    simp only [LeafRequest.hostnames, AltName.room]
    omega
  | service service =>
    rw [heq] at hidentity
    obtain ⟨hservice, hspace⟩ := hascii service heq
    have hdot : IssuerName.isAscii "." := by decide
    have hsvc : IssuerName.isAscii ".svc" := by decide
    have hwithin := IssuerName.isAscii_append (IssuerName.isAscii_append hservice hdot) hspace
    have hcluster := IssuerName.isAscii_append hwithin hsvc
    have hdotSize : ".".utf8ByteSize = 1 := by decide
    have hsvcSize : ".svc".utf8ByteSize = 4 := by decide
    refine ⟨service, rfl, ?_, ?_⟩
    · rw [LeafRequest.checkHostnames, if_pos]
      simp only [LeafRequest.hostnames, serviceHostnames, List.all_cons, List.all_nil, hservice,
        hwithin, hcluster, Bool.and_self]
    · simp only [LeafRequest.hostnames, serviceHostnames, AltName.room, String.utf8ByteSize_append]
      omega

/-- What is known about the validity of an authority that was made for a signer. -/
theorem dated_of_madeFor {shows : Instant → Prop} {ref : ResourceRef} (hca : ca.MadeFor shows ref) :
  ca.info.Dated
  := by
  obtain ⟨r, named, issued, lifetime, v, seed, -, -, -, hv, hgenerate⟩ := hca
  obtain ⟨-, hinfo⟩ := Authority.generate_eq_ok hv hgenerate
  apply CertificateInfo.dated_of_starting hv
  · rw [hinfo]
  · rw [hinfo]

/-- Whether a certificate is due can always be said, if its validity is recorded or outdated. -/
theorem exists_due? {info : CertificateInfo} (hdated : info.Dated)
    (hdue : s.Records info ∨ s.Outdated Shown now) (refresh : Duration) :
  ∃ reason, s.metadata.due? refresh now = .ok reason
  := by
  rcases hdue with hrecords | houtdated
  · apply hrecords.exists_due? hdated
  · obtain ⟨reason, hreason⟩ := houtdated.due (fun t ht => ht.civil) refresh
    exact ⟨_, hreason⟩

/-- In custody, a signer can be replaced. -/
theorem signerAble (hc : Custody definitions Shown h) (hd : d ∈ definitions)
    (hissuable : Issuable h.clock d) (hs : IsVersion d.signer s h) :
  SignerAble d s h.clock
  := by
  refine ⟨?_, _, Validity.starting_eq hissuable.possible, ?_⟩
  · cases hcheck : SignerRequest.check ⟨d.signer, d.signerPolicy, some s⟩ s h.clock with
    | ok checked => exact ⟨checked, rfl⟩
    | error stop =>
      obtain ⟨ca, hca, hstop⟩ := SignerRequest.check_eq_error hcheck
      obtain ⟨hmade, hdue⟩ := hc.signers d hd s hs.1 hs.2 ca hca
      obtain ⟨reason, hreason⟩ := exists_due? (dated_of_madeFor hmade) hdue d.signerPolicy.refresh
      cases hstop.symm.trans hreason
  · obtain ⟨hfrom, hto⟩ := hissuable.possible
    have hname := SignerRequest.utf8ByteSize_commonName_le ⟨d.signer, d.signerPolicy, some s⟩ hfrom
      (by omega)
    apply Authority.exists_generate_of_size (Validity.starting_eq hissuable.possible)
    obtain ⟨hns, hlocal⟩ := hissuable.moderate
    unfold Moderate at hns hlocal
    simp only at hname
    omega

/-- In custody, a leaf can be replaced by one that an authority of its signer issues. -/
theorem leafAble (hc : Custody definitions Shown h) (hd : d ∈ definitions)
    (hstages : d.stages = .ok (.full bundle leaf)) (hissuable : Issuable h.clock d)
    (hca : ca.MadeFor Shown d.signer) (hs : IsVersion leaf.secret s h) :
  LeafAble leaf ca s h.clock
  := by
  have hleaf := hissuable.leaf bundle leaf hstages
  obtain ⟨commonName, hcommonName, hhostnames, hsize⟩ := hleaf.request
  refine ⟨?_, hca.exists_sign hissuable.moderate.1 hissuable.moderate.2 hcommonName hhostnames
    hleaf.possible hsize⟩
  unfold LeafStage.reason?
  cases hmismatch : LeafStage.mismatch? ⟨leaf.secret, leaf.policy, leafRequest leaf, some s⟩ s ca with
  | some reason => exact ⟨_, rfl⟩
  | none =>
    obtain hblank | ⟨first, info, certPem, keyPem, hholds, hdue, -⟩ :=
      hc.leaves d hd bundle leaf hstages s hs.1 hs.2
    · rw [LeafStage.mismatch?_of_blank hblank] at hmismatch
      cases hmismatch
    · obtain ⟨reason, hreason⟩ := exists_due? hholds.dated hdue leaf.policy.refresh
      simp only [hreason]
      exact ⟨_, rfl⟩

end Manager

end CertKeeper
