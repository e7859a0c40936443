import CertKeeper.Proofs.Manager.Pass
import CertKeeper.Proofs.Rotation.Bundle
import CertKeeper.Proofs.Rotation.Drift
import CertKeeper.Proofs.Rotation.Leaf

/-!
# The named objects in custody

While nobody else writes the objects that definitions name, `Custody` says what is known about
every version of them: an authority in a signer's secret was made for that signer, a leaf's
secret is empty or holds a certificate that was issued by a certificate which the bundle of the
definition has listed, and a certificate that a bundle has once listed is in the live bundle as
long as it has not expired. What goes on outside leaves that as it is (`Custody.drift`), and so
do the writes to secrets and bundles that the stages make (`Custody.wrote_secret`,
`Custody.wrote_bundle`).
-/

namespace CertKeeper

namespace Secret

variable {s s' : Secret} {shows : Instant → Prop} {now : Instant} {ref : ResourceRef}

/-- What is known about a version of a signer's secret. -/
def SignerVersion (shows : Instant → Prop) (now : Instant) (ref : ResourceRef) (s : Secret) : Prop :=
  ∀ ca, s.authority = .ok ca → ca.MadeFor shows ref ∧ (s.Records ca.info ∨ s.Outdated shows now)

/-- What is known about a version of a leaf's secret. -/
def LeafVersion (shows : Instant → Prop) (h : History) (bundle : ResourceRef) (leaf : Leaf)
    (s : Secret) : Prop :=
  (∀ key, s.bytes? key = none) ∨ ∃ first info certPem keyPem,
    s.Holds (Manager.leafRequest leaf) first info certPem keyPem
      ∧ (s.Records info ∨ s.Outdated shows h.clock)
      ∧ ∃ m : ConfigMap, (⟨.configMap, m⟩ : Sigma Object) ∈ h.past ∧ m.IsAt bundle
        ∧ first ∈ Bundle.listed (some m)

theorem SignerVersion.later {now' : Instant} (h : s.SignerVersion shows now ref)
    (hlater : ¬ now'.before now) :
  s.SignerVersion shows now' ref
  := by
  intro ca hca
  obtain ⟨hmade, hrecords | houtdated⟩ := h ca hca
  · exact ⟨hmade, .inl hrecords⟩
  · exact ⟨hmade, .inr (houtdated.later hlater)⟩

theorem LeafVersion.later {h h' : History} {bundle : ResourceRef} {leaf : Leaf}
    (hs : s.LeafVersion shows h bundle leaf) (hlater : h.Later h') :
  s.LeafVersion shows h' bundle leaf
  := by
  obtain hblank | ⟨first, info, certPem, keyPem, hholds, hdue, m, hmem, hat, hlisted⟩ := hs
  · exact .inl hblank
  · refine .inr ⟨first, info, certPem, keyPem, hholds, ?_, m, hlater.past _ hmem, hat, hlisted⟩
    rcases hdue with hrecords | houtdated
    · exact .inl hrecords
    · exact .inr (houtdated.later hlater.clock)

/-- A validity that is recorded or outdated has an annotation for its end. -/
theorem isSome_notAfter {info : CertificateInfo} (h : s.Records info ∨ s.Outdated shows now) :
  (s.annotationAt? AnnotationKey.notAfter).isSome
  := by
  rcases h with hrecords | ⟨t, -, -, htext⟩
  · obtain ⟨text, htext, -⟩ := Option.bind_eq_some_iff.mp hrecords.2
    exact Option.isSome_iff_exists.mpr ⟨text, htext⟩
  · exact Option.isSome_iff_exists.mpr ⟨_, htext⟩

/-- Recording a policy on a version of a signer's secret gives one. -/
theorem SignerVersion.withFingerprint? {desired : String} {now' : Instant}
    (hs : s.SignerVersion shows now' ref) (h : s.withFingerprint? desired now = some s')
    (hshows : shows now) (hlater : ¬ now'.before now) :
  s'.SignerVersion shows now' ref
  := by
  intro ca hca
  obtain ⟨-, hcontent, -⟩ := withFingerprint?_eq_some h
  rw [authority_of_content hcontent] at hca
  obtain ⟨hmade, hdue⟩ := hs ca hca
  exact ⟨hmade, .inr (outdated_of_withFingerprint? h (isSome_notAfter hdue) hshows hlater)⟩

theorem Holds.of_content {request : LeafRequest} {first : TrustedCertificate}
    {info : CertificateInfo} {certPem keyPem : String}
    (h : s.Holds request first info certPem keyPem) (hcontent : s'.content = s.content) :
  s'.Holds request first info certPem keyPem
  := by
  constructor
  · rw [text?_of_content hcontent, h.certificate]
  · rw [text?_of_content hcontent, h.privateKey]
  · rw [LeafStage.publishedAuthority?, text?_of_content hcontent]
    apply h.authority
  · apply h.keyMatches
  · apply h.servedBy
  · apply h.dated
  · apply h.issued

/-- Recording a policy on a version of a leaf's secret gives one. -/
theorem LeafVersion.withFingerprint? {h : History} {bundle : ResourceRef} {leaf : Leaf}
    {desired : String} (hs : s.LeafVersion shows h bundle leaf)
    (hrecord : s.withFingerprint? desired now = some s') (hshows : shows now)
    (hlater : ¬ h.clock.before now) :
  s'.LeafVersion shows h bundle leaf
  := by
  obtain ⟨-, hcontent, -⟩ := withFingerprint?_eq_some hrecord
  obtain hblank | ⟨first, info, certPem, keyPem, hholds, hdue, hlisted⟩ := hs
  · left
    intro key
    rw [bytes?_of_content hcontent, hblank]
  · refine .inr ⟨first, info, certPem, keyPem, hholds.of_content hcontent, .inr ?_, hlisted⟩
    apply outdated_of_withFingerprint? hrecord (isSome_notAfter hdue) hshows hlater

/-- Storing a version of a leaf's secret makes it one. -/
theorem LeafVersion.stamped {h : History} {bundle : ResourceRef} {leaf : Leaf}
    (hs : s.LeafVersion shows h bundle leaf) (store : Store) (ns : String) :
  Secret.LeafVersion shows h bundle leaf (store.stamped ns s)
  := by
  obtain hblank | ⟨first, info, certPem, keyPem, hholds, hdue, hlisted⟩ := hs
  · left
    intro key
    rw [bytes?_of_content (Object.content_stamped store ns s), hblank]
  · refine .inr ⟨first, info, certPem, keyPem,
      hholds.of_content (Object.content_stamped store ns s), ?_, hlisted⟩
    rcases hdue with hrecords | houtdated
    · exact .inl (hrecords.of_annotations rfl rfl)
    · exact .inr houtdated

/-- A new secret has no authority. -/
theorem signerVersion_empty (name : String) :
  Secret.SignerVersion shows now ref ⟨{ name := name }, {}⟩
  := by
  intro ca hca
  cases certificate_of_authority hca

end Secret

namespace Manager

/-- What goes on outside of the passes over definitions, if other writers leave the objects alone
that these name. -/
def apart (definitions : List Definition) (shows : Instant → Prop) : Outside :=
  ⟨fun k ref => ¬ Definition.Named definitions k ref, Definition.Named definitions, shows⟩

/-- What is known about the versions of the named objects. -/
structure Custody (definitions : List Definition) (shows : Instant → Prop) (h : History) : Prop where
  shown : shows h.clock
  coherent : h.Coherent (Definition.Named definitions)
  signers : ∀ d ∈ definitions, ∀ s : Secret, (⟨.secret, s⟩ : Sigma Object) ∈ h.past →
    s.IsAt d.signer → s.SignerVersion shows h.clock d.signer
  leaves : ∀ d ∈ definitions, ∀ bundle leaf, d.stages = .ok (.full bundle leaf) →
    ∀ s : Secret, (⟨.secret, s⟩ : Sigma Object) ∈ h.past → s.IsAt leaf.secret →
      s.LeafVersion shows h bundle leaf
  bundles : ∀ d ∈ definitions, ∀ bundle, d.bundle = some bundle →
    ∀ m : ConfigMap, (⟨.configMap, m⟩ : Sigma Object) ∈ h.past → m.IsAt bundle →
      ∀ cert ∈ Bundle.listed (some m), cert.info.isExpired h.clock = false →
        ∃ live, h.store.find? .configMap bundle = some live ∧ cert ∈ Bundle.listed (some live)

namespace Custody

variable {definitions : List Definition} {shows : Instant → Prop} {h h' : History}
variable {ref : ResourceRef}

/-- A history that begins without the named objects. -/
theorem start {s : Store} {now : Instant} (hshows : shows now)
    (hnone : ∀ k ref, Definition.Named definitions k ref → s.find? k ref = none) :
  Custody definitions shows (History.start s now)
  := by
  constructor
  · apply hshows
  · apply History.coherent_start hnone
  · intro d _ s hmem
    cases hmem
  · intro d _ bundle leaf _ s hmem
    cases hmem
  · intro d _ bundle _ m hmem
    cases hmem

/-- What goes on outside does not touch the named objects. -/
theorem drift (hc : Custody definitions shows h) (hd : h.Drift (apart definitions shows) h') :
  Custody definitions shows h'
  := by
  have hsecret : ∀ {ref} {s : Secret}, Definition.Named definitions .secret ref → s.IsAt ref →
      (⟨.secret, s⟩ : Sigma Object) ∈ h'.past → (⟨.secret, s⟩ : Sigma Object) ∈ h.past := by
    intro ref s hnamed hat hmem
    apply hd.of_mem_past (fun hwrites => hwrites hnamed) hat hmem
  constructor
  · apply hd.shows hc.shown
  · apply hc.coherent.drift hd
  · intro d hmem s hs hat
    apply (hc.signers d hmem s (hsecret ⟨d, hmem, .signer⟩ hat hs) hat).later hd.later.clock
  · intro d hmem bundle leaf hstages s hs hat
    have hnamed : Definition.Named definitions .secret leaf.secret :=
      ⟨d, hmem, .of_stages hstages⟩
    apply (hc.leaves d hmem bundle leaf hstages s (hsecret hnamed hat hs) hat).later hd.later
  · intro d hmem bundle hbundle m hm hat cert hcert hexpired
    have hnamed : Definition.Named definitions .configMap bundle := ⟨d, hmem, .bundle hbundle⟩
    rw [hd.find?_eq (fun hwrites => hwrites hnamed)]
    apply hc.bundles d hmem bundle hbundle m _ hat cert hcert
    · apply CertificateInfo.isExpired_of_later hd.later.clock hexpired
    · apply hd.of_mem_past (fun hwrites => hwrites hnamed) hat hm

/-- A write to a secret that stores such a version. -/
theorem wrote_secret {o : Secret} (hc : Custody definitions shows h) (hw : h.Wrote ref o h')
    (hsigner : ∀ d ∈ definitions, d.signer = ref → o.SignerVersion shows h.clock ref)
    (hleaf : ∀ d ∈ definitions, ∀ bundle leaf, d.stages = .ok (.full bundle leaf) →
      leaf.secret = ref → o.LeafVersion shows h bundle leaf) :
  Custody definitions shows h'
  := by
  constructor
  · rw [hw.clock]
    apply hc.shown
  · apply hc.coherent.wrote hw
  · intro d hmem s hs hat
    rw [hw.clock]
    rcases hw.of_mem_past hs with hnew | hs
    · cases hnew
      obtain rfl := hat.eq hw.isAt
      apply hsigner d hmem rfl
    · apply hc.signers d hmem s hs hat
  · intro d hmem bundle leaf hstages s hs hat
    rcases hw.of_mem_past hs with hnew | hs
    · cases hnew
      apply ((hleaf d hmem bundle leaf hstages (hat.eq hw.isAt)).stamped _ _).later hw.later
    · apply (hc.leaves d hmem bundle leaf hstages s hs hat).later hw.later
  · intro d hmem bundle hbundle m hm hat cert hcert hexpired
    rw [hw.clock] at hexpired
    rw [hw.find?_of_ne (fun hsame => by cases hsame.1)]
    rcases hw.of_mem_past hm with hnew | hm
    · cases hnew
    · apply hc.bundles d hmem bundle hbundle m hm hat cert hcert hexpired

/-- What a bundle lists stays listed while the certificate of a signer is merged into the live
version of some bundle, as long as it has not expired. -/
theorem listed_of_wrote {ca : Authority} {now : Instant} {d : Definition} {bundle : ResourceRef}
    {m : ConfigMap} {cert : TrustedCertificate} (hc : Custody definitions shows h)
    (hca : ca.trusted.Genuine) (hnow : ¬ h.clock.before now)
    (hw : h.Wrote ref (Bundle.rewritten ref (h.store.find? .configMap ref)
      (Bundle.merge now ca.trusted (Bundle.listed (h.store.find? .configMap ref)))) h')
    (hd : d ∈ definitions) (hbundle : d.bundle = some bundle)
    (hm : (⟨.configMap, m⟩ : Sigma Object) ∈ h.past) (hat : m.IsAt bundle)
    (hcert : cert ∈ Bundle.listed (some m)) (hexpired : cert.info.isExpired h.clock = false) :
  ∃ live, h'.store.find? .configMap bundle = some live ∧ cert ∈ Bundle.listed (some live)
  := by
  obtain ⟨live, hlive, hlisted⟩ := hc.bundles d hd bundle hbundle m hm hat cert hcert hexpired
  by_cases hsame : bundle = ref
  · subst hsame
    refine ⟨_, hw.find?_self, ?_⟩
    rw [hlive, Bundle.listed_stamped hca]
    apply Bundle.mem_merge hca (fun cert => Bundle.genuine_of_mem_listed) hlisted
    apply CertificateInfo.isExpired_of_later hnow hexpired
  · rw [hw.find?_of_ne (fun h => hsame h.2)]
    exact ⟨live, hlive, hlisted⟩

/-- A write to a bundle that merges the certificate of a signer into the live version. -/
theorem wrote_bundle {ca : Authority} {now : Instant} (hc : Custody definitions shows h)
    (hca : ca.trusted.Genuine) (hnow : ¬ h.clock.before now)
    (hw : h.Wrote ref (Bundle.rewritten ref (h.store.find? .configMap ref)
      (Bundle.merge now ca.trusted (Bundle.listed (h.store.find? .configMap ref)))) h') :
  Custody definitions shows h'
  := by
  constructor
  · rw [hw.clock]
    apply hc.shown
  · apply hc.coherent.wrote hw
  · intro d hmem s hs hat
    rw [hw.clock]
    rcases hw.of_mem_past hs with hnew | hs
    · cases hnew
    · apply hc.signers d hmem s hs hat
  · intro d hmem bundle leaf hstages s hs hat
    rcases hw.of_mem_past hs with hnew | hs
    · cases hnew
    · apply (hc.leaves d hmem bundle leaf hstages s hs hat).later hw.later
  · intro d hmem bundle hbundle m hm hat cert hcert hexpired
    rw [hw.clock] at hexpired
    rcases hw.of_mem_past hm with hnew | hm
    · cases hnew
      rw [hat.eq hw.isAt]
      exact ⟨_, hw.find?_self, hcert⟩
    · apply hc.listed_of_wrote hca hnow hw hmem hbundle hm hat hcert hexpired

end Custody

end Manager

end CertKeeper
