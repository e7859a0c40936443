import CertKeeper.Proofs.Cluster.Continuation
import CertKeeper.Proofs.Manager.Issuing

/-!
# What a pass restores

As long as everything can be issued, a pass over objects in custody goes through in a calm world
(`Manager.goes_sync`). It restores every definition (`Manager.leads_sync_restored`): the signer's
secret holds an authority with its key, the bundle lists the certificate of that, and the leaf's
secret holds a certificate that it has issued, and none of them is due.
-/

namespace CertKeeper

namespace Manager

variable {definitions : List Definition} {watched : NameSet} {plans : List Plan} {p : Plan}
variable {h : History} {w w' : World} {d : Definition} {bundle : ResourceRef} {leaf : Leaf}
variable {ca : Authority}

/-! ### Passes that go through -/

/-- A pass in custody has gone on in a calm world, and time has not. -/
def Proceeds (definitions : List Definition) (watched : NameSet) (clock : Instant) (h : History)
    (w : World) : Prop :=
  Custody definitions Shown h ∧ h.Continues watched w ∧ w.clock = clock

theorem leads_of_guards {α : Type} {p : Procedure α} {ok : α → History → Prop}
    (hwatched : ∀ k ref, Definition.Named definitions k ref → watched.contains ref.ns)
    (hp : p.Guards definitions Shown ok h) (hc : Custody definitions Shown h)
    (hcontinues : h.Continues watched w) :
  p.Leads (fun a w' => ∃ h', Custody definitions Shown h' ∧ h'.Continues watched w' ∧ ok a h')
    (fun _ _ => True) w
  := by
  apply (Procedure.leads_of_safe (fun hc => hc.coherent) hwatched hcontinues hc hp).mono
  · intro a w' ha
    apply ha
  · intros
    trivial

/-- What a named object is in a world, that is where it says. -/
theorem Custody.formed {shows : Instant → Prop} (hc : Custody definitions shows h)
    (hcontinues : h.Continues watched w) :
  Formed definitions w
  := by
  intro k ref hnamed o ho
  rw [← hcontinues.store] at ho
  apply (hc.isVersion hnamed ho).2

/-- Preparing a secret gives a version of it. -/
theorem leads_prepareSecret_version {ref : ResourceRef} (policy : Policy)
    (hwatched : ∀ k ref, Definition.Named definitions k ref → watched.contains ref.ns)
    (hnamed : Definition.Named definitions .secret ref) (hc : Custody definitions Shown h)
    (hcontinues : h.Continues watched w) :
  (prepareSecret watched ref policy).Leads
    (fun s w' => ∃ h', Custody definitions Shown h' ∧ h'.Continues watched w' ∧ IsVersion ref s h')
    (fun _ _ => False) w
  := by
  have hgoes : (prepareSecret watched ref policy).Leads
      (fun s w' => w.Tends watched .secret ref w' ∧ Prepared ref policy s w') (fun _ _ => False) w :=
    leads_prepareSecret policy hcontinues.calm (hwatched _ _ hnamed)
      (hc.formed hcontinues hnamed)
  apply (hgoes.and (leads_of_guards hwatched (guards_prepareSecret policy hnamed hc) hc
    hcontinues)).mono
  · rintro s w' ⟨-, hversion⟩
    apply hversion
  · intro e w' he
    apply he

theorem goes_signerStage (hsep : Definition.Separate definitions) (hd : d ∈ definitions)
    (hissuable : Issuable w.clock d)
    (hwatched : ∀ k ref, Definition.Named definitions k ref → watched.contains ref.ns)
    (hc : Custody definitions Shown h) (hcontinues : h.Continues watched w) :
  (signerStage watched d).Leads
    (fun ca w' => ∃ h', Proceeds definitions watched w.clock h' w' ∧ ca.MadeFor Shown d.signer)
    (fun _ _ => False) w
  := by
  have hnamed : Definition.Named definitions .secret d.signer := ⟨d, hd, .signer⟩
  have hsettles : (signerStage watched d).Leads
      (fun ca w' => w.Tends watched .secret d.signer w' ∧ SignerSettled w' d ca)
      (fun _ _ => False) w := by
    apply leads_signerStage hcontinues.calm (hwatched _ _ hnamed) hissuable.policy
      (hc.formed hcontinues hnamed)
      (leads_prepareSecret_version d.signerPolicy hwatched hnamed hc hcontinues)
    rintro s w' ⟨h', hc', hcontinues', hversion⟩ hclock - hunable e w''
    apply hunable
    rw [← hclock, ← hcontinues'.clock] at hissuable
    rw [← hcontinues'.clock]
    apply signerAble hc' hd hissuable hversion
  apply (hsettles.and (leads_of_guards hwatched (guards_signerStage hsep hd hc) hc hcontinues)).mono
  · rintro ca w' ⟨⟨htends, -⟩, h', hc', hcontinues', hmade⟩
    exact ⟨h', ⟨hc', hcontinues', htends.clock⟩, hmade⟩
  · intro e w' he
    apply he

theorem goes_bundleStage (hd : d ∈ definitions) (hbundle : d.bundle = some bundle)
    (hca : ca.Loaded)
    (hwatched : ∀ k ref, Definition.Named definitions k ref → watched.contains ref.ns)
    (hc : Custody definitions Shown h) (hcontinues : h.Continues watched w) :
  (bundleStage watched bundle ca).Leads
    (fun certs w' => ∃ h', Proceeds definitions watched w.clock h' w' ∧ Listed bundle ca certs h')
    (fun _ _ => False) w
  := by
  have hnamed : Definition.Named definitions .configMap bundle := ⟨d, hd, .bundle hbundle⟩
  have hsettles : (bundleStage watched bundle ca).Leads
      (fun certs w' => w.Tends watched .configMap bundle w' ∧ BundleSettled w' bundle ca certs
        ∧ certs = Bundle.merge w.clock ca.trusted (Bundle.listed (w.store.find? .configMap bundle)))
      (fun _ _ => False) w :=
    leads_bundleStage hcontinues.calm (hwatched _ _ hnamed) (hc.formed hcontinues hnamed) hca
  apply (hsettles.and (leads_of_guards hwatched (guards_bundleStage hd hbundle hca hc) hc
    hcontinues)).mono
  · rintro certs w' ⟨⟨htends, -⟩, h', hc', hcontinues', hlisted⟩
    exact ⟨h', ⟨hc', hcontinues', htends.clock⟩, hlisted⟩
  · intro e w' he
    apply he

theorem goes_leafStage {trusted : List TrustedCertificate} (hsep : Definition.Separate definitions)
    (hd : d ∈ definitions) (hstages : d.stages = .ok (.full bundle leaf))
    (hissuable : Issuable w.clock d) (hca : ca.MadeFor Shown d.signer)
    (htrusted : Listed bundle ca trusted h)
    (hwatched : ∀ k ref, Definition.Named definitions k ref → watched.contains ref.ns)
    (hc : Custody definitions Shown h) (hcontinues : h.Continues watched w) :
  (leafStage watched leaf ca trusted).Leads
    (fun _ w' => ∃ h', Proceeds definitions watched w.clock h' w') (fun _ _ => False) w
  := by
  have hnamed : Definition.Named definitions .secret leaf.secret := ⟨d, hd, .of_stages hstages⟩
  have hgenuine := htrusted
  obtain ⟨rest, rfl, hgenuine, -⟩ := hgenuine
  have hsettles : (leafStage watched leaf ca (ca.trusted :: rest)).Leads
      (fun _ w' => w.Tends watched .secret leaf.secret w' ∧ LeafSettled w' leaf ca)
      (fun _ _ => False) w := by
    apply leads_leafStage hcontinues.calm (hwatched _ _ hnamed)
      (hissuable.leaf bundle leaf hstages).policy (hc.formed hcontinues hnamed) hgenuine
      (leads_prepareSecret_version leaf.policy hwatched hnamed hc hcontinues)
    rintro s w' ⟨h', hc', hcontinues', hversion⟩ hclock - hunable e w''
    apply hunable
    rw [← hclock, ← hcontinues'.clock] at hissuable
    rw [← hcontinues'.clock]
    apply leafAble hc' hd hstages hissuable hca hversion
  apply (hsettles.and (leads_of_guards hwatched
    (guards_leafStage hsep hd hstages hca.sound htrusted hc) hc hcontinues)).mono
  · rintro _ w' ⟨⟨htends, -⟩, h', hc', hcontinues', -⟩
    exact ⟨h', hc', hcontinues', htends.clock⟩
  · intro e w' he
    apply he

/-- The stages of a definition go through. -/
theorem goes_planStages (hsep : Definition.Separate definitions) (hp : p.1 ∈ definitions)
    (hstages : p.1.stages = .ok p.2) (hissuable : Issuable w.clock p.1)
    (hwatched : ∀ k ref, Definition.Named definitions k ref → watched.contains ref.ns)
    (hc : Custody definitions Shown h) (hcontinues : h.Continues watched w) :
  (planStages watched p).Leads (fun _ w' => ∃ h', Proceeds definitions watched w.clock h' w')
    (fun _ _ => False) w
  := by
  obtain ⟨d, kept⟩ := p
  apply (goes_signerStage hsep hp hissuable hwatched hc hcontinues).bind
  rintro ca w₁ ⟨h₁, ⟨hc₁, hcontinues₁, hclock₁⟩, hmade⟩
  have hca := hmade.sound.loaded
  cases kept with
  | signer =>
    apply Procedure.safe_pure
    exact ⟨h₁, hc₁, hcontinues₁, hclock₁⟩
  | signerAndBundle bundle =>
    apply (goes_bundleStage hp (Definition.of_stages hstages).1 hca hwatched hc₁ hcontinues₁).bind
    rintro certs w₂ ⟨h₂, ⟨hc₂, hcontinues₂, hclock₂⟩, -⟩
    apply Procedure.safe_pure
    exact ⟨h₂, hc₂, hcontinues₂, hclock₂.trans hclock₁⟩
  | full bundle leaf =>
    apply (goes_bundleStage hp (Definition.of_stages hstages).1 hca hwatched hc₁ hcontinues₁).bind
    rintro certs w₂ ⟨h₂, ⟨hc₂, hcontinues₂, hclock₂⟩, hlisted⟩
    rw [← hclock₁, ← hclock₂] at hissuable
    apply (goes_leafStage hsep hp hstages hissuable hmade hlisted hwatched hc₂ hcontinues₂).mono
    · rintro _ w₃ ⟨h₃, hc₃, hcontinues₃, hclock₃⟩
      exact ⟨h₃, hc₃, hcontinues₃, hclock₃.trans (hclock₂.trans hclock₁)⟩
    · intro e w₃ he
      apply he

/-- A pass goes through. -/
theorem goes_sync (hplans : preflight watched definitions = .ok plans)
    (hsep : Definition.Separate definitions) (hissuable : ∀ d ∈ definitions, Issuable w.clock d)
    (hc : Custody definitions Shown h) (hcontinues : h.Continues watched w) :
  (sync watched definitions).Leads (fun _ w' => ∃ h', Proceeds definitions watched w.clock h' w')
    (fun _ _ => False) w
  := by
  apply safe_sync_keeps _ _ ⟨h, hc, hcontinues, rfl⟩
  · intro e he
    cases hplans.symm.trans he
  · rintro plans hplans p hp w₁ ⟨h₁, hc₁, hcontinues₁, hclock₁⟩
    obtain ⟨hd, hstages, -⟩ := mem_of_preflight hplans hp
    rw [← hclock₁] at hissuable ⊢
    apply goes_planStages hsep hd hstages (hissuable _ hd)
      (fun _ _ => Definition.Named.watched hplans) hc₁ hcontinues₁

/-! ### What has been restored -/

/-- A secret holds an authority with its key, whose validity it records and which is not due. -/
structure SignerRestored (w : World) (d : Definition) (ca : Authority) (s : Secret) : Prop where
  live : w.store.find? .secret d.signer = some s
  authority : s.authority = .ok ca
  keyMatches : Authority.keyMatches? ca.certPem ca.keyPem = some true
  records : s.Records ca.info
  notDue : s.metadata.due? d.signerPolicy.refresh w.clock = .ok none

/-- A secret holds a certificate for a leaf that an authority has issued, with its key, whose
validity it records and which is not due. -/
structure LeafRestored (w : World) (leaf : Leaf) (ca : Authority) (s : Secret)
    (info : CertificateInfo) (certPem keyPem : String) : Prop where
  live : w.store.find? .secret leaf.secret = some s
  holds : s.Holds (leafRequest leaf) ca.trusted info certPem keyPem
  records : s.Records info
  notDue : s.metadata.due? leaf.policy.refresh w.clock = .ok none

/-- The objects of a definition are in line with each other. -/
structure Restored (w : World) (d : Definition) (ca : Authority) : Prop where
  signer : ∃ s, SignerRestored w d ca s
  bundle : ∀ bundle, d.bundle = some bundle →
    ∃ m, w.store.find? .configMap bundle = some m ∧ ca.trusted ∈ Bundle.listed (some m)
  leaf : ∀ bundle target, d.bundle = some bundle → d.target = some target →
    ∃ leaf s info certPem keyPem, d.stages = .ok (.full bundle leaf) ∧ leaf.secret = target
      ∧ LeafRestored w leaf ca s info certPem keyPem

/-- A certificate that is due at no time has not expired. -/
theorem isExpired_of_notDue {s : Secret} {info : CertificateInfo} {refresh : Duration}
    {now : Instant} (hrecords : s.Records info) (hdue : s.metadata.due? refresh now = .ok none) :
  info.isExpired now = false
  := by
  rw [hrecords.due?, Validity.due?] at hdue
  split at hdue
  · cases hdue
  · rename_i hexpired
    apply Bool.eq_false_iff.mpr hexpired

/-- An outdated secret is not kept. -/
theorem records_of_notDue {s : Secret} {info : CertificateInfo} {refresh : Duration} {now : Instant}
    (h : s.Records info ∨ s.Outdated Shown now) (hdue : s.metadata.due? refresh now = .ok none) :
  s.Records info
  := by
  rcases h with hrecords | houtdated
  · apply hrecords
  · obtain ⟨reason, hreason⟩ := houtdated.due (fun t ht => ht.civil) refresh
    cases hdue.symm.trans hreason

theorem SignerSettled.restored (hsettled : SignerSettled w d ca) (hd : d ∈ definitions)
    (hc : Custody definitions Shown h) (hcontinues : h.Continues watched w) :
  ∃ s, SignerRestored w d ca s
  := by
  obtain ⟨s, hprepared, hcheck⟩ := hsettled
  obtain ⟨hauthority, hdue⟩ := SignerRequest.check_eq_ok_ok.mp hcheck
  have hlive := hprepared.live
  rw [← hcontinues.store] at hlive
  obtain ⟨hmem, hat⟩ := hc.isVersion ⟨d, hd, .signer⟩ hlive
  obtain ⟨hmade, hrecords⟩ := hc.signers d hd s hmem hat ca hauthority
  rw [hcontinues.clock] at hrecords
  refine ⟨s, hprepared.live, hauthority, hmade.sound.keyMatches?, ?_, hdue⟩
  apply records_of_notDue hrecords hdue

theorem LeafSettled.restored (hsettled : LeafSettled w leaf ca) (hca : ca.Loaded)
    (hd : d ∈ definitions) (hstages : d.stages = .ok (.full bundle leaf))
    (hc : Custody definitions Shown h) (hcontinues : h.Continues watched w) :
  ∃ s info certPem keyPem, LeafRestored w leaf ca s info certPem keyPem
  := by
  obtain ⟨s, hprepared, hreason⟩ := hsettled
  obtain ⟨hmismatch, hdue⟩ := LeafStage.of_reason?_eq_none hreason
  have hlive := hprepared.live
  rw [← hcontinues.store] at hlive
  obtain ⟨hmem, hat⟩ := hc.isVersion ⟨d, hd, .of_stages hstages⟩ hlive
  obtain hblank | ⟨first, info, certPem, keyPem, hholds, hrecords, m, hm, hplace, hlisted⟩ :=
    hc.leaves d hd bundle leaf hstages s hmem hat
  · rw [LeafStage.mismatch?_of_blank hblank] at hmismatch
    cases hmismatch
  · obtain rfl : first = ca.trusted := by
      apply (Bundle.genuine_of_mem_listed hlisted).eq_of_pem_eq hca.genuine
      apply LeafStage.pem_of_mismatch?_eq_none hmismatch hholds.authority
    rw [hcontinues.clock] at hrecords
    exact ⟨s, info, certPem, keyPem, hprepared.live, hholds, records_of_notDue hrecords hdue, hdue⟩

/-- What is kept for a definition in custody is restored. -/
theorem PlanKept.restored (hkept : PlanKept definitions w p) (hp : p.1 ∈ definitions)
    (hstages : p.1.stages = .ok p.2) (hc : Custody definitions Shown h)
    (hcontinues : h.Continues watched w) :
  ∃ ca, Restored w p.1 ca
  := by
  obtain ⟨d, kept⟩ := p
  obtain ⟨ca, hsettled, hlater⟩ := hkept
  obtain ⟨s, hsigner⟩ := hsettled.restored hp hc hcontinues
  have hunexpired := isExpired_of_notDue hsigner.records hsigner.notDue
  have hof := Definition.of_stages hstages
  refine ⟨ca, ⟨s, hsigner⟩, ?_, ?_⟩
  · intro bundle hbundle
    cases kept with
    | signer => cases hbundle.symm.trans hof
    | signerAndBundle bundle' =>
      cases hbundle.symm.trans hof.1
      apply hlater.listed hunexpired
    | full bundle' leaf =>
      cases hbundle.symm.trans hof.1
      apply hlater.1.listed hunexpired
  · intro bundle target hbundle htarget
    obtain ⟨leaf, rfl, hleaf⟩ := Definition.full_of_stages hstages hbundle htarget
    obtain ⟨s', info, certPem, keyPem, hrestored⟩ :=
      hlater.2.restored hsettled.loaded hp hstages hc hcontinues
    exact ⟨leaf, s', info, certPem, keyPem, hstages, hleaf, hrestored⟩

/-- From whatever state, a pass that goes through in a calm world restores every definition. -/
theorem leads_sync_restored (hplans : preflight watched definitions = .ok plans)
    (hagree : Agree definitions) (hsep : Definition.Separate definitions)
    (hissuable : ∀ d ∈ definitions, Issuable w.clock d) (hc : Custody definitions Shown h)
    (hcontinues : h.Continues watched w) :
  (sync watched definitions).Leads (fun _ w' => ∀ d ∈ definitions, ∃ ca, Restored w' d ca)
    (fun _ _ => False) w
  := by
  have hgoes := goes_sync hplans hsep hissuable hc hcontinues
  have hsettles := leads_sync hagree hsep (fun d hd => (hissuable d hd).sensible) hcontinues.calm
    (hc.formed hcontinues)
  apply (hgoes.and hsettles).mono
  · rintro _ w' ⟨⟨h', hc', hcontinues', -⟩, plans', hplans', -, hkept⟩ d hd
    cases hplans.symm.trans hplans'
    obtain ⟨p, hp, rfl, hstages⟩ := exists_plan hplans hd
    apply (hkept p hp).restored hd hstages hc' hcontinues'
  · intro e w' he
    apply he

end Manager

end CertKeeper
