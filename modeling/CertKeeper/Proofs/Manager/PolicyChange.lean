import CertKeeper.Proofs.Duration.ClockText
import CertKeeper.Proofs.Manager.Trust
import CertKeeper.Proofs.Manager.Work

/-!
# Changes of a policy

A pass records the policy of a secret in one write and stores a certificate for it in a later one,
and in between it may be cut short. The change is not lost: a secret on which a policy is recorded
has either a certificate that was issued for the lifetime of that policy, or is due from then on
(`Manager.policy_change_kept`). That holds along every run of passes over definitions that may be
others each time, since it holds of each version of a secret that a pass writes
(`Manager.Work.faithful`), however stale the version is that it was made from.
-/

namespace CertKeeper

namespace Secret

variable {s s' : Secret} {shows : Instant → Prop} {now : Instant}

/-- The certificate of a secret was issued for the whole seconds of a lifetime, and the secret
records its validity. -/
def IssuedFor (lifetime : Duration) (s : Secret) : Prop :=
  ∃ (certPem : String) (info : CertificateInfo) (start : Int),
    s.text? EntryKey.certificate = some certPem
      ∧ parseCertificates certPem = .ok [⟨certPem, info⟩]
      ∧ info.notBefore = .ofSeconds start ∧ info.notAfter = .ofSeconds (start + lifetime.seconds)
      ∧ s.Records info

/-- From a time on, a secret has a reason to be rotated. -/
def DueFrom (now : Instant) (s : Secret) : Prop :=
  ¬ s.HasKeyMaterial ∨ ∀ (refresh : Duration) (later : Instant), ¬ later.before now →
    ∃ reason, s.metadata.due? refresh later = .ok (some reason)

/-- What is known about every version of a secret that only passes write. -/
def Faithful (shows : Instant → Prop) (now : Instant) (s : Secret) : Prop :=
  ¬ s.HasKeyMaterial ∨ s.Outdated shows now ∨ ∃ policy : Policy,
    s.annotationAt? AnnotationKey.policy = some policy.fingerprint ∧ s.IssuedFor policy.lifetime

theorem HasKeyMaterial.of_content (h : s'.HasKeyMaterial) (hcontent : s'.content = s.content) :
  s.HasKeyMaterial
  := by
  rw [HasKeyMaterial, bytes?_of_content hcontent, bytes?_of_content hcontent] at h
  apply h

theorem IssuedFor.stamped {lifetime : Duration} (h : s.IssuedFor lifetime) (store : Store)
    (ns : String) :
  Secret.IssuedFor lifetime (store.stamped ns s)
  := by
  obtain ⟨certPem, info, start, hcert, hparse, hnotBefore, hnotAfter, hrecords⟩ := h
  exact ⟨certPem, info, start, (text?_stamped store ns _ s).trans hcert, hparse, hnotBefore, hnotAfter,
    hrecords.of_annotations rfl rfl⟩

theorem Faithful.later {now' : Instant} (h : s.Faithful shows now) (hlater : ¬ now'.before now) :
  s.Faithful shows now'
  := by
  rcases h with hblank | houtdated | hissued
  · exact .inl hblank
  · exact .inr (.inl (houtdated.later hlater))
  · exact .inr (.inr hissued)

theorem Faithful.stamped (h : s.Faithful shows now) (store : Store) (ns : String) :
  Secret.Faithful shows now (store.stamped ns s)
  := by
  rcases h with hblank | houtdated | ⟨policy, hpolicy, hissued⟩
  · left
    intro hmaterial
    apply hblank (hmaterial.of_content (Object.content_stamped store ns s))
  · exact .inr (.inl houtdated)
  · exact .inr (.inr ⟨policy, hpolicy, hissued.stamped store ns⟩)

/-- Recording another policy makes a secret outdated, unless it has nothing to rotate. -/
theorem Faithful.withFingerprint? {desired : String} {now' : Instant} (h : s.Faithful shows now)
    (hrecord : s.withFingerprint? desired now' = some s') (hshows : shows now')
    (hlater : ¬ now.before now') :
  s'.Faithful shows now
  := by
  obtain ⟨-, hcontent, -⟩ := withFingerprint?_eq_some hrecord
  have houtdated : (s.annotationAt? AnnotationKey.notAfter).isSome → s'.Faithful shows now :=
    fun hsome => .inr (.inl (outdated_of_withFingerprint? hrecord hsome hshows hlater))
  rcases h with hblank | hold | ⟨policy, -, certPem, info, start, -, -, -, -, hrecords⟩
  · left
    intro hmaterial
    apply hblank (hmaterial.of_content hcontent)
  · apply houtdated
    obtain ⟨t, -, -, htext⟩ := hold
    rw [htext]
    rfl
  · apply houtdated
    have hdue : s.Records info ∨ s.Outdated shows now := .inl hrecords
    apply isSome_notAfter hdue

/-- A faithful secret with the fingerprint of a policy has a certificate for the policy, or is
due. -/
theorem Faithful.issued_or_due {policy : Policy} (h : s.Faithful Instant.Civil now)
    (hpolicy : s.annotationAt? AnnotationKey.policy = some policy.fingerprint) :
  s.IssuedFor policy.lifetime ∨ s.DueFrom now
  := by
  rcases h with hblank | houtdated | ⟨policy', hpolicy', hissued⟩
  · exact .inr (.inl hblank)
  · right; right
    intro refresh later hlater
    apply (houtdated.later hlater).due (fun t ht => ht) refresh
  · left
    obtain rfl := Policy.fingerprint_injective (Option.some.inj (hpolicy.symm.trans hpolicy'))
    apply hissued

/-- A secret with a new authority was issued for the lifetime of the authority. -/
theorem issuedFor_withKeyPair {policy : Policy} {issued : Instant} {v : Validity}
    {commonName : String} {seed : Nat} {ca : Authority} (s : Secret)
    (hv : Validity.starting issued policy.lifetime = .ok v)
    (hca : Authority.generate commonName v (KeyPair.generate seed) = .ok ca) :
  (s.withKeyPair ca.certPem ca.keyPem ca.info).IssuedFor policy.lifetime
  := by
  obtain ⟨hsound, hinfo⟩ := Authority.generate_eq_ok hv hca
  have hkeys : EntryKey.certificate ≠ EntryKey.privateKey := by decide
  have hnotBefore : ca.info.notBefore = .ofSeconds v.notBefore := by rw [hinfo]
  have hnotAfter : ca.info.notAfter = .ofSeconds v.notAfter := by rw [hinfo]
  obtain ⟨hvalidity, -⟩ := Validity.starting_eq_ok hv
  refine ⟨ca.certPem, ca.info, v.notBefore, ?_, parseCertificates_pem hsound.loaded.genuine, hnotBefore,
    ?_, records_withKeyPair hv hnotBefore hnotAfter s ca.certPem ca.keyPem⟩
  · rw [text?_withKeyPair, if_neg hkeys, if_pos rfl]
  · rw [hnotAfter, hvalidity]

/-- A secret with a new leaf certificate was issued for the lifetime of the leaf. -/
theorem issuedFor_filled {r : LeafStage} {ca : Authority} {trusted : List TrustedCertificate}
    {seed : Nat} {issued : IssuedCertificate} (s : Secret)
    (hsign : ca.sign r.request now r.policy.lifetime (KeyPair.generate seed) = .ok issued) :
  (r.filled s ca trusted issued).IssuedFor r.policy.lifetime
  := by
  obtain ⟨v, hv, hserves⟩ := Authority.serves_of_sign hsign
  obtain ⟨hvalidity, -⟩ := Validity.starting_eq_ok hv
  obtain ⟨hcert, -, -⟩ := @LeafStage.texts_filled r s ca trusted issued
  refine ⟨issued.certPem, issued.info, v.notBefore, hcert,
    parseCertificates_pem (Authority.genuine_of_sign hsign), hserves.notBefore, ?_,
    LeafStage.records_filled hsign⟩
  rw [hserves.notAfter, hvalidity]

end Secret

/-! ### Bundles -/

namespace Bundle

variable {outside : Outside} {keep : History → Prop} {h : History}

/-- An invariant that no write to a config map breaks is kept by a publication. -/
theorem safe_publish_of_indifferent (hsteady : Procedure.Steady outside keep)
    (hwrote : ∀ {h h' ref} {o : ConfigMap}, keep h → h.Wrote ref o h' → keep h') (hk : keep h)
    (ref : ResourceRef) (ca : Authority) (copy : Option ConfigMap) :
  Procedure.Safe (History.step outside) keep (publish ref ca copy) (fun _ _ => True)
    (fun _ _ => True) h
  := by
  have hreported : ∀ {h} {certs : List TrustedCertificate} (stored : ConfigMap)
      (reason action note : String), keep h →
      Procedure.Safe (History.step outside) keep
        (do
          Procedure.publish stored reason action note
          return certs)
        (fun _ _ => True) (fun _ _ => True) h := by
    intro h certs stored reason action note hk
    apply Procedure.safe_bind
    apply Procedure.safe_publish hsteady hk
    intro h' _ _
    apply Procedure.safe_pure
    trivial
  apply Procedure.safe_bind
  apply Procedure.safe_clock hsteady hk
  intro h₁ _ hk₁
  dsimp only
  split
  · apply Procedure.safe_pure
    trivial
  · -- What is written is named by the copy, whatever that is.
    have hname : ∀ m : ConfigMap, m.name = (⟨ref.ns, m.name⟩ : ResourceRef).name := fun _ => rfl
    split
    · apply Procedure.safe_bind
      apply Procedure.safe_update hsteady hk₁ (hname _)
      · intro h₂ h₃ live _ hk₂ _ _ hw
        exact ⟨hwrote hk₂ hw, hreported _ _ _ _ (hwrote hk₂ hw)⟩
      · intros
        trivial
    · apply Procedure.safe_bind
      apply Procedure.safe_create hsteady hk₁ (hname _)
      · intro h₂ h₃ _ hk₂ _ hw
        exact ⟨hwrote hk₂ hw, hreported _ _ _ _ (hwrote hk₂ hw)⟩
      · intros
        trivial

/-- An invariant that no write to a config map breaks is kept by a bundle stage, whatever the
caches show it. -/
theorem safe_ensure_of_indifferent (hsteady : Procedure.Steady outside keep)
    (hwrote : ∀ {h h' ref} {o : ConfigMap}, keep h → h.Wrote ref o h' → keep h') (hk : keep h)
    (ref : ResourceRef) (ca : Authority) :
  Procedure.Safe (History.step outside) keep (ensure ref ca) (fun _ _ => True) (fun _ _ => True) h
  := by
  have hpublish : ∀ {h} (copy : Option ConfigMap), keep h →
      Procedure.Safe (History.step outside) keep (publish ref ca copy) (fun _ _ => True)
        (fun _ _ => True) h :=
    fun copy hk => safe_publish_of_indifferent hsteady hwrote hk ref ca copy
  have hfind : ∀ {h} {next : Option ConfigMap → Procedure (List TrustedCertificate)},
      (∀ {h} copy, keep h → Procedure.Safe (History.step outside) keep (next copy) (fun _ _ => True)
        (fun _ _ => True) h) → keep h →
      Procedure.Safe (History.step outside) keep (Procedure.find .configMap ref >>= next)
        (fun _ _ => True) (fun _ _ => True) h := by
    intro h next hnext hk
    apply Procedure.safe_bind
    apply Procedure.safe_find hsteady hk
    · intro h' m _ hk' _
      apply hnext _ hk'
    · intro h' _ hk'
      apply hnext _ hk'
    · intros
      trivial
  have hattempt : ∀ {h} (copy : Option ConfigMap), keep h →
      Procedure.Safe (History.step outside) keep (tryCatch (publish ref ca copy) (retry ref ca))
        (fun _ _ => True) (fun _ _ => True) h := by
    intro h copy hk
    apply Procedure.safe_tryCatch
    apply Procedure.safe_imp hk (hpublish copy hk)
    · intros
      trivial
    · intro e h' _ hk' _
      unfold retry
      split
      · split
        · apply hfind hpublish hk'
        · apply Procedure.safe_throw
          trivial
      · apply Procedure.safe_throw
        trivial
  rw [ensure_eq]
  apply Procedure.safe_bind
  apply Procedure.safe_bind
  apply Procedure.safe_cached_any hsteady hk
  intro h₁ cached _ hk₁
  cases cached with
  | some m =>
    apply Procedure.safe_pure
    apply hattempt _ hk₁
  | none =>
    apply Procedure.safe_find hsteady hk₁
    · intro h₂ m _ hk₂ _
      apply hattempt _ hk₂
    · intro h₂ _ hk₂
      apply hattempt _ hk₂
    · intros
      trivial

end Bundle

/-! ### Runs of passes -/

namespace Manager

variable {managed : ResourceRef → Prop} {definitions : List Definition} {h h' : History}
variable {ref : ResourceRef} {o secret : Secret}

/-- What a pass stores in a secret is faithful, if the version is that it was made from. -/
theorem Work.faithful {shows : Instant → Prop} (hwork : Work definitions shows h ref o)
    (hversions : ∀ {copy : Secret}, IsVersion ref copy h → copy.Faithful shows h.clock) :
  o.Faithful shows h.clock
  := by
  cases hwork with
  | created _ =>
    left
    rintro (hsome | hsome) <;> cases hsome
  | recorded hcopy _ hshows hlater hrecord =>
    apply (hversions hcopy).withFingerprint? hrecord hshows hlater
  | signed _ _ hcopy _ hv hca =>
    right; right
    refine ⟨_, ?_, Secret.issuedFor_withKeyPair _ hv hca⟩
    rw [Secret.policy_withKeyPair]
    apply hcopy.policy
  | filled _ _ _ hcopy _ hsign =>
    right; right
    refine ⟨_, ?_, Secret.issuedFor_filled _ hsign⟩
    rw [LeafStage.policy_filled]
    apply hcopy.policy

/-- What goes on outside of passes, if they are the only ones to write the managed secrets. Nothing
is known of the caches of config maps. -/
def alone (managed : ResourceRef → Prop) : Outside :=
  ⟨fun k ref => ¬ (k = .secret ∧ managed ref), fun k ref => k = .secret ∧ managed ref, Instant.Civil⟩

/-- All versions of the managed secrets are faithful. -/
structure AllFaithful (managed : ResourceRef → Prop) (h : History) : Prop where
  civil : h.clock.Civil
  coherent : h.Coherent (alone managed).follows
  versions : ∀ {ref} {s : Secret}, managed ref → IsVersion ref s h → s.Faithful Instant.Civil h.clock

theorem AllFaithful.start {s : Store} {now : Instant} (hnow : now.Civil)
    (hnone : ∀ ref, managed ref → s.find? .secret ref = none) :
  AllFaithful managed (History.start s now)
  := by
  constructor
  · apply hnow
  · apply History.coherent_start
    rintro k ref ⟨rfl, href⟩
    apply hnone ref href
  · rintro ref s _ ⟨hmem, -⟩
    cases hmem

theorem AllFaithful.drift (hf : AllFaithful managed h) (hd : h.Drift (alone managed) h') :
  AllFaithful managed h'
  := by
  constructor
  · apply hd.shows hf.civil
  · apply hf.coherent.drift hd
  · intro ref s href hs
    have hmem := hd.of_mem_past (fun hwrites => hwrites ⟨rfl, href⟩) hs.2 hs.1
    apply (hf.versions href ⟨hmem, hs.2⟩).later hd.later.clock

theorem AllFaithful.wrote {k : Kind} {o : Object k} (hf : AllFaithful managed h)
    (hw : h.Wrote ref o h')
    (hnew : ∀ s : Secret, (⟨k, o⟩ : Sigma Object) = ⟨.secret, s⟩ → s.Faithful Instant.Civil h.clock) :
  AllFaithful managed h'
  := by
  constructor
  · rw [hw.clock]
    apply hf.civil
  · apply hf.coherent.wrote hw
  · rintro ref' s href ⟨hmem, hat⟩
    rw [hw.clock]
    rcases hw.of_mem_past hmem with hsame | hmem
    · cases hsame
      apply (hnew o rfl).stamped
    · apply hf.versions href ⟨hmem, hat⟩

/-- Passes over definitions of managed secrets leave all versions faithful. -/
theorem tended_faithful (hmanaged : ∀ ref, Definition.Named definitions .secret ref → managed ref) :
  Tended (alone managed) (AllFaithful managed) definitions
  := by
  have hsteady : Procedure.Steady (alone managed) (AllFaithful managed) := fun hf hd => hf.drift hd
  constructor
  · apply hsteady
  · intro h hf
    apply hf.civil
  · intro h hf
    apply hf.coherent
  · intro ref hnamed
    exact ⟨rfl, hmanaged ref hnamed⟩
  · intro h h' ref o hf hnamed hwork hw
    apply hf.wrote hw
    rintro s ⟨⟩
    apply hwork.faithful
    intro copy hcopy
    apply hf.versions (hmanaged ref hnamed) hcopy
  · intro h ref ca hf _ _
    apply Bundle.safe_ensure_of_indifferent hsteady _ hf
    intro h h' ref o hf hw
    apply hf.wrote hw
    rintro s ⟨⟩

/-- Passes over whatever definitions of managed secrets begin without these secrets and are their only
writers. Whenever a managed secret carries the record of a policy, its certificate was issued for the
lifetime of that policy and its validity is recorded, or the secret is due from then on. -/
theorem policy_change_kept {s : Store} {now : Instant} (hnow : now.Civil)
    (hnone : ∀ ref, managed ref → s.find? .secret ref = none)
    {p : Program Request.Answer (Except Stop Unit)}
    (hmet : Program.Met (History.step (alone managed))
      (fun p => ∃ watched definitions, (∀ ref, Definition.Named definitions .secret ref → managed ref)
        ∧ p = (sync watched definitions).run) (History.start s now) p h)
    (href : managed ref) (hfind : h.store.find? .secret ref = some secret) {policy : Policy}
    (hpolicy : secret.annotationAt? AnnotationKey.policy = some policy.fingerprint) :
  secret.IssuedFor policy.lifetime ∨ secret.DueFrom h.clock
  := by
  have hf : AllFaithful managed h := Tended.met tended_faithful (.start hnow hnone) hmet
  obtain ⟨hat, hmem⟩ := hf.coherent.live ⟨rfl, href⟩ hfind
  apply (hf.versions href ⟨hmem, hat⟩).issued_or_due hpolicy

/-- After a pass over the sample definitions for a service. -/
theorem policy_change_kept_of_sample :
  ∃ h secret, Program.Met (History.step (alone (fun ref => ref.ns = "pki")))
      (fun p => ∃ watched definitions,
        (∀ ref, Definition.Named definitions .secret ref → ref.ns = "pki")
          ∧ p = (sync watched definitions).run)
      (History.start (Store.new ["pki"]) (Instant.ofSeconds 0)) (.done (.ok ())) h
    ∧ h.store.find? .secret ⟨"pki", "api-server-cert"⟩ = some secret
    ∧ secret.annotationAt? AnnotationKey.policy = some Definition.sampleLeafPolicy.fingerprint
    ∧ (Secret.IssuedFor Definition.sampleLeafPolicy.lifetime secret
      ∨ Secret.DueFrom h.clock secret)
  := by
  have hnamed : ∀ k ref, Definition.Named (Definition.sample "pki" "api") k ref → ref.ns = "pki" := by
    rintro k ref ⟨d, hd, hnames⟩
    apply Definition.namespaces_sample hd _ hnames.mem_namespaces
  have hnone : ∀ k ref, (Store.new ["pki"]).find? k ref = none := Store.find?_new ["pki"]
  have hcoherent : (History.start (Store.new ["pki"]) (Instant.ofSeconds 0)).Coherent
      (alone (fun ref => ref.ns = "pki")).follows := History.coherent_start (fun k ref _ => hnone k ref) _
  -- The pass goes through and leaves everything settled.
  obtain ⟨plans, hplans⟩ := preflight_sample (show "pki" ≠ "" by decide) (show "api" ≠ "" by decide)
  have hcalm := World.calm_new ["pki"] (Instant.ofSeconds 0)
  have hissuable := issuable_sample_api 0 (by decide)
  have hgoes := leads_sync_sample (by decide) (by decide) hissuable hcalm (shown_ofSeconds 0)
    (fun k ref _ => hnone k ref)
  have hsettles := leads_sync (agree_sample "pki" "api") (Definition.separate_sample "pki" "api")
    (fun d hd => (hissuable d hd).sensible) hcalm (fun _ o ho => by cases (hnone _ _).symm.trans ho)
  obtain ⟨_, w, hrun, -, plans', hplans', -, hkept⟩ := (hgoes.and hsettles).exists_run
  cases hplans.symm.trans hplans'
  obtain ⟨⟨d, kept⟩, hp, rfl, hstages⟩ := exists_plan hplans List.mem_cons_self
  cases hstages
  obtain ⟨ca, -, -, secret, hprepared, -⟩ := hkept _ hp
  -- It is met in a history.
  have hbegun : Program.Met (History.step (alone (fun ref => ref.ns = "pki")))
      (fun p => ∃ watched definitions,
        (∀ ref, Definition.Named definitions .secret ref → ref.ns = "pki")
          ∧ p = (sync watched definitions).run)
      (History.start (Store.new ["pki"]) (Instant.ofSeconds 0))
      (sync (NameSet.ofNames ["pki"]) (Definition.sample "pki" "api")).run
      (History.start (Store.new ["pki"]) (Instant.ofSeconds 0)) :=
    .start ⟨_, _, hnamed .secret, rfl⟩
  have hcontinues : (History.start (Store.new ["pki"]) (Instant.ofSeconds 0)).Continues
      (NameSet.ofNames ["pki"]) { store := Store.new ["pki"], clock := Instant.ofSeconds 0 } :=
    ⟨hcalm, rfl, rfl⟩
  obtain ⟨h, hmet, hcontinues'⟩ := hcontinues.met hcoherent (by
    rintro k ref ⟨-, hns⟩
    rw [hns]
    decide) hbegun
  rw [show Program.run World.handle _ _ = _ from hrun] at hmet hcontinues'
  have hlive := hprepared.live
  rw [← hcontinues'.store] at hlive
  refine ⟨h, secret, hmet, hlive, hprepared.recorded, ?_⟩
  apply policy_change_kept (shown_ofSeconds 0).civil (fun ref _ => hnone .secret ref) hmet rfl hlive
    hprepared.recorded

end Manager

end CertKeeper
