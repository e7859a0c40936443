import CertKeeper.Proofs.Manager.Custody
import CertKeeper.Proofs.Manager.Stage

/-!
# Passes keep the named objects in custody

Every stage of a pass leaves the named objects in custody, however stale the copies are that it
decides from and wherever it stops. The stages of a definition hand on to each other what the
next one needs: the signer stage an authority that was made for the signer, and the bundle stage
certificates that a version of the bundle lists, with the one of that authority first. So a pass
leaves the named objects in custody as well (`Manager.guards_sync`), and so does a run of passes that
begins without the named objects (`Manager.custody_of_met`).
-/

namespace CertKeeper

/-- A procedure leaves the named objects in custody, and ends with `ok` if it has a result. -/
abbrev Procedure.Guards {α : Type} (definitions : List Definition) (shows : Instant → Prop)
    (p : Procedure α) (ok : α → History → Prop) (h : History) : Prop :=
  p.Safe (History.step (Manager.apart definitions shows)) (Manager.Custody definitions shows) ok
    (fun _ _ => True) h

namespace Manager

variable {definitions : List Definition} {shows : Instant → Prop} {watched : NameSet}
variable {h : History} {d : Definition} {ref bundle : ResourceRef} {leaf : Leaf} {ca : Authority}

theorem steady :
  Procedure.Steady (apart definitions shows) (Custody definitions shows)
  := fun hc hd => hc.drift hd

/-! ### Preparing a secret -/

theorem Custody.isVersion {k : Kind} {o : Object k} (hc : Custody definitions shows h)
    (hnamed : Definition.Named definitions k ref) (hfind : h.store.find? k ref = some o) :
  IsVersion ref o h
  := by
  obtain ⟨hat, hmem⟩ := hc.coherent.live hnamed hfind
  exact ⟨hmem, hat⟩

/-- Preparing a named secret leaves the objects in custody. -/
theorem secretUpkeep (hnamed : Definition.Named definitions .secret ref) :
  SecretUpkeep (apart definitions shows) (Custody definitions shows) ref
  := by
  refine ⟨steady, fun hc => hc.shown, fun hc => hc.coherent, hnamed, ?_⟩
  intro h h' s hc hprepared hw
  apply hc.wrote_secret hw
  · intro d hd hsigner
    subst hsigner
    cases hprepared with
    | created => apply Secret.signerVersion_empty
    | recorded hcopy _ hshows hlater hrecord =>
      apply (hc.signers d hd _ hcopy.1 hcopy.2).withFingerprint? hrecord hshows hlater
  · intro d hd bundle leaf hstages hleaf
    subst hleaf
    cases hprepared with
    | created => exact .inl (fun key => rfl)
    | recorded hcopy _ hshows hlater hrecord =>
      apply (hc.leaves d hd bundle leaf hstages _ hcopy.1 hcopy.2).withFingerprint? hrecord hshows hlater

/-- A secret that has been prepared is a version of the secret. -/
theorem guards_prepareSecret (policy : Policy) (hnamed : Definition.Named definitions .secret ref)
    (hc : Custody definitions shows h) :
  (prepareSecret watched ref policy).Guards definitions shows (IsVersion ref) h
  := by
  apply Works.imp hc ((secretUpkeep hnamed).prepareSecret policy hc)
  intro copy h' _ _ hcopy
  apply hcopy.version

/-! ### The signer stage -/

/-- A signer's secret with a new authority is a version of it. -/
theorem signerVersion_withKeyPair {now issued : Instant} {lifetime : Duration} {v : Validity}
    {seed : Nat} {r : SignerRequest} (hshows : shows now) (hlater : ¬ issued.before now)
    (hv : Validity.starting issued lifetime = .ok v)
    (hca : Authority.generate (r.commonName now) v (KeyPair.generate seed) = .ok ca)
    (secret : Secret) (later : Instant) :
  (secret.withKeyPair ca.certPem ca.keyPem ca.info).SignerVersion shows later r.ref
  := by
  intro ca' hca'
  obtain ⟨hsound, hinfo⟩ := Authority.generate_eq_ok hv hca
  rw [Secret.authority_withKeyPair hsound.loaded] at hca'
  obtain rfl := Except.ok.inj hca'
  constructor
  · exact ⟨r, now, issued, lifetime, v, seed, rfl, hshows, hlater, hv, hca⟩
  · left
    apply Secret.records_withKeyPair hv
    · rw [hinfo]
    · rw [hinfo]

theorem signerUpkeep (hsep : Definition.Separate definitions) (hd : d ∈ definitions) :
  SignerUpkeep (apart definitions shows) (Custody definitions shows) d.signer d.signerPolicy
  := by
  refine ⟨secretUpkeep ⟨d, hd, .signer⟩, ?_⟩
  intro h h' copy known now issued v seed ca hc _ _ hnow hlater hv hca hw
  apply hc.wrote_secret hw
  · intro d' _ _
    apply signerVersion_withKeyPair hnow hlater hv hca
  · intro d' hd' bundle leaf hstages hleaf
    refine absurd ?_ (hsep.signers d' hd' d hd)
    rw [(Definition.of_stages hstages).2, hleaf]

/-- The signer stage ends with an authority that was made for the signer. -/
theorem guards_signerStage (hsep : Definition.Separate definitions) (hd : d ∈ definitions)
    (hc : Custody definitions shows h) :
  (signerStage watched d).Guards definitions shows (fun ca _ => ca.MadeFor shows d.signer) h
  := by
  apply Works.imp hc ((signerUpkeep hsep hd).signerStage hc)
  rintro ca h' _ hc' ⟨s, hs, hauthority⟩
  apply (hc'.signers d hd s hs.1 hs.2 ca hauthority).1

/-! ### The bundle stage -/

/-- Certificates that a version of a bundle lists, with the one of an authority first. -/
def Listed (bundle : ResourceRef) (ca : Authority) (certs : List TrustedCertificate) (h : History) :
    Prop :=
  ∃ rest, certs = ca.trusted :: rest ∧ (∀ cert ∈ certs, cert.Genuine)
    ∧ ∃ m : ConfigMap, IsVersion bundle m h ∧ ca.trusted ∈ Bundle.listed (some m)

theorem Listed.later {certs : List TrustedCertificate} {h' : History}
    (hlisted : Listed bundle ca certs h) (hlater : h.Later h') :
  Listed bundle ca certs h'
  := by
  obtain ⟨rest, hcerts, hgenuine, m, hm, hmem⟩ := hlisted
  exact ⟨rest, hcerts, hgenuine, m, hm.later hlater, hmem⟩

theorem listed_of_outcome {now : Instant} {first : History} {certs : List TrustedCertificate}
    (hca : ca.trusted.Genuine) (hout : Bundle.Outcome bundle ca now first certs h) :
  Listed bundle ca certs h
  := by
  have hlisted : ∀ {version : Option ConfigMap} {m : ConfigMap}, IsVersion bundle m h →
      certs = ca.trusted :: Bundle.retained now ca.trusted (Bundle.listed version) →
      m.text? EntryKey.bundle = some (encodeBundle certs) → Listed bundle ca certs h := by
    intro version m hm hcerts htext
    have hgenuine : ∀ cert ∈ certs, cert.Genuine := by
      intro cert hcert
      rw [hcerts, ← Bundle.merge_eq] at hcert
      apply Bundle.genuine_of_mem_merge hca hcert
    refine ⟨_, hcerts, hgenuine, m, hm, ?_⟩
    rw [Bundle.listed_of_text hgenuine htext, hcerts]
    apply List.mem_cons_self
  cases hout with
  | kept copy hmem hat hcerts htext _ => apply hlisted ⟨hmem, hat⟩ hcerts htext
  | replaced _ stored hmem hat hcerts htext _ _ _ => apply hlisted ⟨hmem, hat⟩ hcerts htext

/-- The bundle stage ends with certificates that the bundle lists. -/
theorem guards_bundleStage (hd : d ∈ definitions) (hbundle : d.bundle = some bundle)
    (hca : ca.Loaded) (hc : Custody definitions shows h) :
  (bundleStage watched bundle ca).Guards definitions shows (Listed bundle ca) h
  := by
  have hnamed : Definition.Named definitions .configMap bundle := ⟨d, hd, .bundle hbundle⟩
  apply Procedure.safe_bind
  apply Procedure.safe_ofResult
  · intro _ _
    have hupkeep : Bundle.Upkeep (apart definitions shows) (Custody definitions shows) bundle ca := by
      refine ⟨steady, fun hc => hc.coherent, hnamed, hca.certPem_ne_empty, ?_⟩
      intro h₁ h₂ now hc₁ hnow hw
      apply hc₁.wrote_bundle hca.genuine hnow hw
    apply Procedure.safe_imp hc (Bundle.safe_ensure hupkeep hc)
    · rintro certs h₁ _ _ ⟨now, -, -, hout⟩
      apply listed_of_outcome hca.genuine hout
    · intro e h₁ _ _ _
      trivial
  · intro e _
    trivial

/-! ### The leaf stage -/

/-- Where a bundle lists certificates, a leaf with them leaves the objects in custody. -/
theorem leafUpkeep (hsep : Definition.Separate definitions) (hd : d ∈ definitions)
    (hstages : d.stages = .ok (.full bundle leaf)) (hca : ca.Sound) (trusted : List TrustedCertificate)
    (known : Option Secret) :
  LeafUpkeep (apart definitions shows)
    (fun h => Custody definitions shows h ∧ Listed bundle ca trusted h)
    ⟨leaf.secret, leaf.policy, leafRequest leaf, known⟩ ca trusted
  := by
  have hnamed : Definition.Named definitions .secret leaf.secret := ⟨d, hd, .of_stages hstages⟩
  have htarget := (Definition.of_stages hstages).2
  refine ⟨(secretUpkeep hnamed).and Listed.later, ?_⟩
  rintro h h' copy now seed issued ⟨hc, hlisted⟩ _ _ _ hsign hw
  refine ⟨?_, hlisted.later hw.later⟩
  obtain ⟨rest, rfl, hgenuine, m, hm, hmem⟩ := hlisted
  apply hc.wrote_secret hw
  · intro d' hd' hsigner
    refine absurd ?_ (hsep.signers d hd d' hd')
    rw [htarget, hsigner]
  · intro d' hd' bundle' leaf' hstages' hleaf
    obtain rfl : d' = d := by
      apply hsep.targets d' hd' d hd leaf.secret
      · rw [(Definition.of_stages hstages').2, hleaf]
      · apply htarget
    rw [hstages] at hstages'
    cases hstages'
    right
    refine ⟨ca.trusted, issued.info, issued.certPem, issued.keyPem, ?_, ?_, m, hm.1, hm.2, hmem⟩
    · apply LeafStage.holds_filled hca hsign hgenuine
    · left
      apply LeafStage.records_filled hsign

theorem guards_leafStage (hsep : Definition.Separate definitions) (hd : d ∈ definitions)
    (hstages : d.stages = .ok (.full bundle leaf)) (hca : ca.Sound)
    {trusted : List TrustedCertificate} (htrusted : Listed bundle ca trusted h)
    (hc : Custody definitions shows h) :
  (leafStage watched leaf ca trusted).Guards definitions shows (fun _ _ => True) h
  := by
  have hleaf : Works (apart definitions shows)
      (fun h => Custody definitions shows h ∧ Listed bundle ca trusted h)
      (leafStage watched leaf ca trusted) (fun _ _ => True) h :=
    LeafUpkeep.leafStage (leafUpkeep hsep hd hstages hca trusted) ⟨hc, htrusted⟩
  apply Procedure.safe_keep_mono hleaf
  intro h' hk
  apply hk.1

/-! ### Whole passes -/

/-- The stages of a definition leave the named objects in custody. -/
theorem guards_planStages (hsep : Definition.Separate definitions) {p : Plan}
    (hp : p.1 ∈ definitions) (hstages : p.1.stages = .ok p.2) (hc : Custody definitions shows h) :
  (planStages watched p).Guards definitions shows (fun _ _ => True) h
  := by
  obtain ⟨d, kept⟩ := p
  apply Procedure.safe_bind
  apply Works.imp hc (guards_signerStage hsep hp hc)
  intro ca h₁ _ hc₁ hmade
  have hca := hmade.sound
  cases kept with
  | signer =>
    apply Procedure.safe_pure
    trivial
  | signerAndBundle bundle =>
    apply Procedure.safe_bind
    apply Works.imp hc₁ (guards_bundleStage hp (Definition.of_stages hstages).1 hca.loaded hc₁)
    intro trusted h₂ _ _ _
    apply Procedure.safe_pure
    trivial
  | full bundle leaf =>
    apply Procedure.safe_bind
    apply Works.imp hc₁ (guards_bundleStage hp (Definition.of_stages hstages).1 hca.loaded hc₁)
    intro trusted h₂ _ hc₂ htrusted
    apply guards_leafStage hsep hp hstages hca htrusted hc₂

/-- A pass leaves the named objects in custody. -/
theorem guards_sync (hsep : Definition.Separate definitions) (hc : Custody definitions shows h) :
  (sync watched definitions).Guards definitions shows (fun _ h' => Custody definitions shows h') h
  := by
  apply safe_sync_keeps _ _ hc
  · intros
    trivial
  · intro plans hplans p hp h hc
    obtain ⟨hd, hstages, -⟩ := mem_of_preflight hplans hp
    apply Works.imp hc (guards_planStages hsep hd hstages hc)
    intro _ h₁ _ hc₁ _
    apply hc₁

/-- Every state of a run is in custody. -/
theorem custody_of_met (hsep : Definition.Separate definitions) {s : Store} {now : Instant}
    (hnow : shows now) (hnone : ∀ k ref, Definition.Named definitions k ref → s.find? k ref = none)
    {p : Program Request.Answer (Except Stop Unit)}
    (hmet : Program.Met (History.step (apart definitions shows))
      (fun p => p = (sync watched definitions).run) (History.start s now) p h) :
  Custody definitions shows h
  := by
  apply hmet.keeps (Custody.start hnow hnone)
  rintro _ h' rfl hc
  apply Program.Safe.mono (Procedure.safe_iff.mp (guards_sync hsep hc))
  intro _ _ _
  trivial

end Manager

end CertKeeper
