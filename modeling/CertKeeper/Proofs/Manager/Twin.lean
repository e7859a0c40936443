import CertKeeper.Proofs.Certificate.Twin
import CertKeeper.Proofs.Manager.Segment

/-!
# Objects of twins

Two objects are the same but for their versions (`Object.SameAs`), or they hold what twin authorities
have put into them: the secrets of signers (`Secret.Akin`), the bundles that list them (`BundleAlike`)
and the leaf certificates that they have issued (`LeafAlike`). What a stage finds out about two such
objects is the same. So is what it finds out about twins, as long as neither of them is listed by an
object already (`Authority.Renewed`).
-/

namespace CertKeeper

/-! ### Versions -/

/-- The metadata without a version. -/
def Metadata.unversioned (m : Metadata) : Metadata := { m with version := none }

/-- Two objects have the same metadata but for their versions. -/
def Metadata.SameAs (m m' : Metadata) : Prop := m'.unversioned = m.unversioned

namespace Metadata.SameAs

variable {m m' : Metadata}

theorem name (h : m.SameAs m') :
  m'.name = m.name
  := by
  have hname := congrArg Metadata.name h
  apply hname

theorem annotationAt? (h : m.SameAs m') (key : String) :
  m'.annotationAt? key = m.annotationAt? key
  := by
  have hrecorded := congrArg (fun m : Metadata => m.annotationAt? key) h
  apply hrecorded

theorem annotate (h : m.SameAs m') (key value : String) :
  (m.annotate key value).SameAs (m'.annotate key value)
  := by
  have hannotated := congrArg (fun m : Metadata => m.annotate key value) h
  apply hannotated

/-- Whether a certificate is due does not depend on the version. -/
theorem due? (h : m.SameAs m') (refresh : Duration) (now : Instant) :
  m'.due? refresh now = m.due? refresh now
  := by
  have hdue := congrArg (fun m : Metadata => m.due? refresh now) h
  apply hdue

/-- To store an object gives it a place and a version. -/
theorem stamped {k : Kind} {o o' : Object k} (h : o.metadata.SameAs o'.metadata) (s t : Store)
    (ns : String) :
  (s.stamped ns o).metadata.SameAs (t.stamped ns o').metadata
  := by
  have hplaced := congrArg (fun m : Metadata => { m with ns := some ns }) h
  apply hplaced

end Metadata.SameAs

/-- Two objects are the same but for their versions. -/
structure Object.SameAs {k : Kind} (o o' : Object k) : Prop where
  metadata : o.metadata.SameAs o'.metadata
  content : o'.content = o.content

theorem Object.SameAs.refl {k : Kind} (o : Object k) :
  o.SameAs o
  := ⟨rfl, rfl⟩

/-- Whether a policy is recorded depends on the metadata only, and so does what becomes of these. -/
theorem Secret.withFingerprint?_of_sameAs {s s' : Secret} (h : s.metadata.SameAs s'.metadata)
    (desired : String) (now : Instant) :
  Option.Rel (fun marked marked' => marked.metadata.SameAs marked'.metadata)
    (s.withFingerprint? desired now) (s'.withFingerprint? desired now)
  := by
  have hrecorded : ∀ key, s'.annotationAt? key = s.annotationAt? key := h.annotationAt?
  unfold withFingerprint?
  rw [hrecorded, hrecorded]
  split
  · exact .none
  · apply Option.Rel.some
    split
    · apply (h.annotate _ _).annotate
    · apply h.annotate

/-! ### Secrets -/

namespace Secret

/-- The secret with the texts of a certificate and of its key. -/
def withPair (s : Secret) (certPem keyPem : String) : Secret :=
  (s.withText EntryKey.certificate certPem).withText EntryKey.privateKey keyPem

variable {s s' : Secret} {ca ca' : Authority}

theorem text?_withPair (s : Secret) (certPem keyPem key : String) :
  (s.withPair certPem keyPem).text? key
    = if key = EntryKey.privateKey then some keyPem
      else if key = EntryKey.certificate then some certPem else s.text? key
  := by
  rw [withPair, text?_withText, text?_withText]

theorem content_withText (h : s'.content = s.content) (key value : String) :
  (s'.withText key value).content = (s.withText key value).content
  := by
  simp only [withText, h]

theorem content_withPair (h : s'.content = s.content) (certPem keyPem : String) :
  (s'.withPair certPem keyPem).content = (s.withPair certPem keyPem).content
  := content_withText (content_withText h _ _) _ _

/-- A key pair takes the place of the one before. -/
theorem withPair_withPair (s : Secret) (certPem keyPem certPem' keyPem' : String) :
  (s.withPair certPem keyPem).withPair certPem' keyPem' = s.withPair certPem' keyPem'
  := by
  simp only [withPair, withText, Option.getD_some]
  congr 3
  apply Dict.ext_get?
  intro key
  simp only [Dict.get?_insert]
  split
  · rfl
  · split
    · rfl
    · rfl

/-- Two secrets are the same but for their versions and for the key pairs of authorities that were made
alike. -/
structure Akin (ca ca' : Authority) (s s' : Secret) : Prop where
  metadata : s.metadata.SameAs s'.metadata
  content : s'.content = s.content ∨ ca.MadeAlike ca' ∧ ∃ base : Secret,
    s.content = (base.withPair ca.certPem ca.keyPem).content
      ∧ s'.content = (base.withPair ca'.certPem ca'.keyPem).content

namespace Akin

theorem of_sameAs (h : s.SameAs s') :
  Akin ca ca' s s'
  := ⟨h.metadata, .inl h.content⟩

/-- Texts that are not those of the key pair are the same. -/
theorem text?_of_ne {key : String} (h : Akin ca ca' s s') (hcert : key ≠ EntryKey.certificate)
    (hkey : key ≠ EntryKey.privateKey) :
  s'.text? key = s.text? key
  := by
  rcases h.content with hsame | ⟨-, base, hcontent, hcontent'⟩
  · apply text?_of_content hsame
  · rw [text?_of_content hcontent, text?_of_content hcontent', text?_withPair, text?_withPair,
      if_neg hkey, if_neg hkey, if_neg hcert, if_neg hcert]

theorem publishedAuthority? (h : Akin ca ca' s s') :
  LeafStage.publishedAuthority? s' = LeafStage.publishedAuthority? s
  := by
  rw [LeafStage.publishedAuthority?, LeafStage.publishedAuthority?,
    h.text?_of_ne (by decide) (by decide)]

/-- A text of the key pair is missing in both or in none. -/
theorem lacks {key : String} (h : Akin ca ca' s s')
    (hkey : key = EntryKey.certificate ∨ key = EntryKey.privateKey) :
  LeafStage.lacks s' key = LeafStage.lacks s key
  := by
  rcases h.content with hsame | ⟨hmade, base, hcontent, hcontent'⟩
  · rw [LeafStage.lacks, LeafStage.lacks, text?_of_content hsame]
  · have hpresent : ∀ {ca : Authority} {s : Secret}, ca.Sound →
        s.content = (base.withPair ca.certPem ca.keyPem).content → LeafStage.lacks s key = false := by
      intro ca s hca hs
      obtain ⟨hcertPem, hkeyPem⟩ := Authority.ne_empty_of_keyMatches? hca.keyMatches?
      have htext := text?_of_content hs key
      rw [text?_withPair] at htext
      rcases hkey with rfl | rfl
      · apply LeafStage.not_lacks htext hcertPem
      · apply LeafStage.not_lacks htext hkeyPem
    rw [hpresent hmade.sound.1 hcontent, hpresent hmade.sound.2 hcontent']

/-- New key pairs can be put into what both have in common. -/
theorem exists_base (h : Akin ca ca' s s') :
  ∃ base : Secret, ∀ certPem keyPem,
    (s.withPair certPem keyPem).content = (base.withPair certPem keyPem).content
      ∧ (s'.withPair certPem keyPem).content = (base.withPair certPem keyPem).content
  := by
  rcases h.content with hsame | ⟨-, base, hcontent, hcontent'⟩
  · exact ⟨s, fun _ _ => ⟨rfl, content_withPair hsame _ _⟩⟩
  · refine ⟨base, fun certPem keyPem => ⟨?_, ?_⟩⟩
    · rw [content_withPair hcontent, withPair_withPair]
    · rw [content_withPair hcontent', withPair_withPair]

end Akin

end Secret

/-! ### Authorities that are new to a store -/

/-- An authority was kept, or two authorities were made alike that a store does not list. -/
inductive Authority.Renewed (s : Store) (ca : Authority) : Authority → Prop where
  | kept : Renewed s ca ca
  | made {ca' : Authority} : ca.MadeAlike ca' → ca.Unlisted s → ca'.Unlisted s → Renewed s ca ca'

theorem Authority.Renewed.twins {s : Store} {ca ca' : Authority} (h : ca.Renewed s ca') :
  ca.Twins ca'
  := by
  cases h with
  | kept => exact .same
  | made hmade _ _ => exact .made hmade

/-! ### What a stage finds out -/

section Checks

variable {s s' : Secret} {ca ca' : Authority} {now : Instant} {ref : ResourceRef} {policy : Policy}

theorem SignerRequest.check_of_sameAs (h : s.SameAs s') (known known' : Option Secret) :
  SignerRequest.check ⟨ref, policy, known'⟩ s' now = SignerRequest.check ⟨ref, policy, known⟩ s now
  := by
  rw [check, check, Secret.authority_of_content h.content, h.metadata.due?]

variable {request : LeafRequest} {origin : Store}

/-- What a secret was told to trust first is no new authority, if a store has told it. -/
theorem Authority.Unlisted.pem_ne {first : TrustedCertificate} (hca : ca.Unlisted origin)
    (htold : LeafStage.publishedAuthority? s
      = (origin.find? .secret ref).bind LeafStage.publishedAuthority?)
    (hfirst : LeafStage.publishedAuthority? s = some first) :
  first.pem ≠ ca.certPem
  := by
  obtain ⟨o, hfind, hpublished⟩ := Option.bind_eq_some_iff.mp (htold.symm.trans hfirst)
  apply hca.untold ref o first hfind hpublished

namespace LeafStage

/-- A leaf has the same reason to be replaced, whichever of two renewed authorities it is checked for. -/
theorem reason?_of_akin (known known' : Option Secret) (hca : ca.Renewed origin ca')
    (h : Secret.Akin ca ca' s s')
    (htold : publishedAuthority? s = (origin.find? .secret ref).bind publishedAuthority?) :
  reason? ⟨ref, policy, request, known'⟩ s' ca' now = reason? ⟨ref, policy, request, known⟩ s ca now
  := by
  have hrecorded : ∀ key, s'.annotationAt? key = s.annotationAt? key := h.metadata.annotationAt?
  have hpublished : (publishedAuthority? s').all (fun first => first.pem ≠ ca'.certPem)
      = (publishedAuthority? s).all (fun first => first.pem ≠ ca.certPem) := by
    rw [h.publishedAuthority?]
    cases hca with
    | kept => rfl
    | made _ hunlisted hunlisted' =>
      cases hfirst : publishedAuthority? s with
      | none => rfl
      | some first => simp [hunlisted.pem_ne htold hfirst, hunlisted'.pem_ne htold hfirst]
  have hmismatch : mismatch? ⟨ref, policy, request, known'⟩ s' ca'
      = mismatch? ⟨ref, policy, request, known⟩ s ca := by
    simp only [mismatch?, h.lacks (.inl rfl), h.lacks (.inr rfl), hrecorded, hpublished, hca.twins.info]
  rw [reason?, reason?, hmismatch, h.metadata.due?]

/-- Leaves that need not be replaced are the same. -/
theorem sameAs_of_reason?_eq_none {known : Option Secret} (hca : ca.Renewed origin ca')
    (h : Secret.Akin ca ca' s s')
    (htold : publishedAuthority? s = (origin.find? .secret ref).bind publishedAuthority?)
    (hreason : reason? ⟨ref, policy, request, known⟩ s ca now = .ok none) :
  s.SameAs s'
  := by
  refine ⟨h.metadata, ?_⟩
  rcases h.content with hsame | ⟨-, base, hcontent, hcontent'⟩
  · apply hsame
  · cases hca with
    | kept => rw [hcontent, hcontent']
    | made _ hunlisted _ =>
      obtain ⟨-, ⟨first, hfirst, hpem⟩, -⟩ := of_mismatch?_eq_none (of_reason?_eq_none hreason).1
      exact absurd hpem (hunlisted.pem_ne htold hfirst)

end LeafStage

end Checks

/-! ### What a stage leaves -/

namespace LeafStage

variable {r : LeafStage} {secret : Secret} {ca : Authority} {trusted : List TrustedCertificate}
variable {issued : IssuedCertificate}

theorem content_filled :
  (r.filled secret ca trusted issued).content = ((secret.withPair issued.certPem issued.keyPem).withText
    EntryKey.authority (encodeBundle trusted)).content
  := by
  rw [filled_eq]
  cases hostnames? r.request <;> rfl

/-- What is recorded on a leaf is the same for certificates that say the same. -/
theorem metadata_filled {secret' : Secret} {ca' : Authority} {trusted' : List TrustedCertificate}
    {issued' : IssuedCertificate} {known' : Option Secret}
    (h : secret.metadata.SameAs secret'.metadata) (hca : ca'.info = ca.info)
    (hissued : issued'.info = issued.info) :
  (r.filled secret ca trusted issued).metadata.SameAs
    (LeafStage.filled ⟨r.ref, r.policy, r.request, known'⟩ secret' ca' trusted' issued').metadata
  := by
  have hattributed : (attributed secret ca trusted issued).metadata.SameAs
      (attributed secret' ca' trusted' issued').metadata := by
    simp only [attributed, hca, Secret.withKeyPair, Secret.withValidity, hissued]
    apply ((h.annotate _ _).annotate _ _).annotate
  rw [filled_eq, filled_eq]
  cases hostnames? r.request with
  | none => apply hattributed
  | some hostnames => apply hattributed.annotate

end LeafStage

namespace Manager

/-- Two bundles are the same but for their versions, or for the twins whose certificates come first. -/
inductive BundleAlike (ca ca' : Authority) (m m' : ConfigMap) : Prop where
  | kept : m.SameAs m' → BundleAlike ca ca' m m'
  | updated {base : ConfigMap} {rest : List TrustedCertificate} : m.metadata.SameAs m'.metadata →
      m.content = (base.withText EntryKey.bundle (encodeBundle (ca.trusted :: rest))).content →
      m'.content = (base.withText EntryKey.bundle (encodeBundle (ca'.trusted :: rest))).content →
      BundleAlike ca ca' m m'

/-- Two leaf certificates were issued for the same request at the same time by two authorities, each
with a new key, and say the same. -/
def IssuedAlike (leaf : Leaf) (now : Instant) (ca ca' : Authority) (issued issued' : IssuedCertificate) :
    Prop :=
  ∃ seed seed',
    ca.sign (leafRequest leaf) now leaf.policy.lifetime (KeyPair.generate seed) = .ok issued
      ∧ ca'.sign (leafRequest leaf) now leaf.policy.lifetime (KeyPair.generate seed') = .ok issued'
      ∧ issued'.info = issued.info

/-- Two leaves are the same but for their versions, or both hold a new certificate, with its key, and are
told to trust the twin first that issued it. -/
inductive LeafAlike (leaf : Leaf) (now : Instant) (ca ca' : Authority) (s s' : Secret) : Prop where
  | kept : s.SameAs s' → LeafAlike leaf now ca ca' s s'
  | issued {issued issued' : IssuedCertificate} (base : Secret) (rest : List TrustedCertificate) :
      IssuedAlike leaf now ca ca' issued issued' → s.metadata.SameAs s'.metadata →
      s.content = ((base.withPair issued.certPem issued.keyPem).withText EntryKey.authority
        (encodeBundle (ca.trusted :: rest))).content →
      s'.content = ((base.withPair issued'.certPem issued'.keyPem).withText EntryKey.authority
        (encodeBundle (ca'.trusted :: rest))).content →
      LeafAlike leaf now ca ca' s s'

end Manager

end CertKeeper
