import CertKeeper.Proofs.Manager.Stage

/-!
# What passes write to secrets

A pass writes a secret on four occasions: it creates the secret, records a policy on it, and stores
a new signer or a new leaf certificate in it. `Manager.Work` lists what is known on each of them
about the copy of the secret that the stage worked on. An invariant that the stages of all definitions
keep (`Manager.PassUpkeep`) is kept by whole passes, whatever the definitions have in common
(`Manager.PassUpkeep.sync`), and so is an invariant that these writes and the bundle stages keep
(`Manager.Tended`).
-/

namespace CertKeeper.Manager

/-- A secret that a pass over definitions stores in the place of the live one. -/
inductive Work (definitions : List Definition) (shows : Instant → Prop) (h : History)
    (ref : ResourceRef) : Secret → Prop where
  | created : h.store.find? .secret ref = none →
      Work definitions shows h ref ⟨{ name := ref.name }, {}⟩
  | recorded {copy updated : Secret} {policy : Policy} {now : Instant} :
      IsVersion ref copy h → Replaces ref copy h → shows now → ¬ h.clock.before now →
      copy.withFingerprint? policy.fingerprint now = some updated →
      Work definitions shows h ref updated
  | signed {d : Definition} {copy : Secret} {policy : Policy} {commonName : String} {issued : Instant}
      {v : Validity} {seed : Nat} {ca : Authority} :
      d ∈ definitions → d.signer = ref →
      Readied ref policy copy h → (copy.version.isSome → Replaces ref copy h) →
      Validity.starting issued policy.lifetime = .ok v →
      Authority.generate commonName v (KeyPair.generate seed) = .ok ca →
      Work definitions shows h ref (copy.withKeyPair ca.certPem ca.keyPem ca.info)
  | filled {leaf : Leaf} {copy : Secret} {r : LeafStage} {ca : Authority}
      {trusted : List TrustedCertificate} {now : Instant} {seed : Nat} {issued : IssuedCertificate} :
      Definition.Asked definitions leaf → leaf.secret = ref → r.request = leafRequest leaf →
      Readied ref r.policy copy h → (copy.version.isSome → Replaces ref copy h) →
      ca.sign r.request now r.policy.lifetime (KeyPair.generate seed) = .ok issued →
      Work definitions shows h ref (r.filled copy ca trusted issued)

/-- An invariant that the writes of passes keep. -/
structure Tended (outside : Outside) (keep : History → Prop) (definitions : List Definition) : Prop where
  steady : Procedure.Steady outside keep
  shown : ∀ {h}, keep h → outside.shows h.clock
  coherent : ∀ {h}, keep h → h.Coherent outside.follows
  follows : ∀ {ref}, Definition.Named definitions .secret ref → outside.follows .secret ref
  secret : ∀ {h h' ref} {o : Secret}, keep h → Definition.Named definitions .secret ref →
    Work definitions outside.shows h ref o → h.Wrote ref o h' → keep h'
  bundle : ∀ {h ref} {ca : Authority}, keep h → Definition.Named definitions .configMap ref →
    ca.Loaded → (Bundle.ensure ref ca).Safe (History.step outside) keep (fun _ _ => True)
      (fun _ _ => True) h

variable {outside : Outside} {keep : History → Prop} {definitions : List Definition}
variable {watched : NameSet} {h : History} {d : Definition} {ref bundle : ResourceRef} {leaf : Leaf}
variable {ca : Authority}

/-- What prepares a secret is the work of any pass. -/
theorem Preparation.work {shows : Instant → Prop} {s : Secret} (hs : Preparation shows h ref s) :
  Work definitions shows h ref s
  := by
  cases hs with
  | created hnone => apply Work.created hnone
  | recorded hcopy hreplaces hshows hlater hrecord =>
    apply Work.recorded hcopy hreplaces hshows hlater hrecord

/-! ### Invariants of all stages -/

/-- An invariant that the stages of all definitions of a list can rely on and keep. -/
structure PassUpkeep (outside : Outside) (keep : History → Prop) (definitions : List Definition) :
    Prop where
  signer : ∀ {d}, d ∈ definitions → SignerUpkeep outside keep d.signer d.signerPolicy
  bundle : ∀ {d bundle h} {ca : Authority}, d ∈ definitions → d.bundle = some bundle → keep h →
    ca.Loaded → Works outside keep (Bundle.ensure bundle ca) (fun _ _ => True) h
  leaf : ∀ {d bundle leaf}, d ∈ definitions → d.stages = .ok (.full bundle leaf) →
    ∀ (ca : Authority) (trusted : List TrustedCertificate) (known : Option Secret),
      LeafUpkeep outside keep ⟨leaf.secret, leaf.policy, leafRequest leaf, known⟩ ca trusted

namespace PassUpkeep

theorem bundleStage (hu : PassUpkeep outside keep definitions) (hd : d ∈ definitions)
    (hbundle : d.bundle = some bundle) (hca : ca.Loaded) (hk : keep h) :
  Works outside keep (bundleStage watched bundle ca) (fun _ _ => True) h
  := by
  apply Procedure.safe_bind
  apply Procedure.safe_ofResult
  · intro _ _
    apply hu.bundle hd hbundle hk hca
  · intro e _
    trivial

theorem planStages (hu : PassUpkeep outside keep definitions) {p : Plan} (hd : p.1 ∈ definitions)
    (hstages : p.1.stages = .ok p.2) (hk : keep h) :
  Works outside keep (planStages watched p) (fun _ _ => True) h
  := by
  obtain ⟨d, kept⟩ := p
  apply Procedure.safe_bind
  apply Works.imp hk ((hu.signer hd).signerStage hk)
  intro ca h₁ _ hk₁ hca
  cases kept with
  | signer =>
    apply Procedure.safe_pure
    trivial
  | signerAndBundle bundle =>
    apply Procedure.safe_bind
    apply Works.imp hk₁ (hu.bundleStage hd (Definition.of_stages hstages).1 hca.loaded hk₁)
    intro trusted h₂ _ _ _
    apply Procedure.safe_pure
    trivial
  | full bundle leaf =>
    apply Procedure.safe_bind
    apply Works.imp hk₁ (hu.bundleStage hd (Definition.of_stages hstages).1 hca.loaded hk₁)
    intro trusted h₂ _ hk₂ _
    apply LeafUpkeep.leafStage (hu.leaf hd hstages ca trusted) hk₂

/-- A pass keeps what the stages of all definitions keep. -/
theorem sync (hu : PassUpkeep outside keep definitions) (hk : keep h) :
  Works outside keep (sync watched definitions) (fun _ h' => keep h') h
  := by
  apply safe_sync_keeps _ _ hk
  · intros
    trivial
  · intro plans hplans p hp h hk
    obtain ⟨hd, hstages, -⟩ := mem_of_preflight hplans hp
    apply Works.imp hk (hu.planStages hd hstages hk)
    intro _ h₁ _ hk₁ _
    apply hk₁

/-- Passes that are begun over and over keep what the stages of all definitions keep. -/
theorem met {first : History} {p : Program Request.Answer (Except Stop Unit)}
    (hu : PassUpkeep outside keep definitions) (hfirst : keep first)
    (hmet : Program.Met (History.step outside)
      (fun p => p = (Manager.sync watched definitions).run) first p h) :
  keep h
  := by
  apply hmet.keeps hfirst
  rintro _ h' rfl hk
  apply Program.Safe.mono (Procedure.safe_iff.mp (hu.sync hk))
  intro _ _ _
  trivial

end PassUpkeep

/-! ### Invariants of all writes -/

namespace Tended

theorem secretUpkeep (ht : Tended outside keep definitions)
    (hnamed : Definition.Named definitions .secret ref) :
  SecretUpkeep outside keep ref
  := by
  refine ⟨ht.steady, ht.shown, ht.coherent, ht.follows hnamed, ?_⟩
  intro h h' s hk hs hw
  apply ht.secret hk hnamed hs.work hw

theorem signerUpkeep (ht : Tended outside keep definitions) (hd : d ∈ definitions) (policy : Policy) :
  SignerUpkeep outside keep d.signer policy
  := by
  have hnamed : Definition.Named definitions .secret d.signer := ⟨d, hd, .signer⟩
  refine ⟨ht.secretUpkeep hnamed, ?_⟩
  intro h h' copy known now issued v seed ca hk hcopy hover _ _ hv hca hw
  apply ht.secret hk hnamed (.signed hd rfl hcopy hover hv hca) hw

theorem leafUpkeep (ht : Tended outside keep definitions) {r : LeafStage}
    (hasked : Definition.Asked definitions leaf) (hsecret : leaf.secret = r.ref)
    (hrequest : r.request = leafRequest leaf) (ca : Authority) (trusted : List TrustedCertificate) :
  LeafUpkeep outside keep r ca trusted
  := by
  have hnamed : Definition.Named definitions .secret r.ref := hsecret ▸ hasked.named
  refine ⟨ht.secretUpkeep hnamed, ?_⟩
  intro h h' copy now seed issued hk hcopy hover _ hsign hw
  apply ht.secret hk hnamed (.filled hasked hsecret hrequest hcopy hover hsign) hw

theorem passUpkeep (ht : Tended outside keep definitions) :
  PassUpkeep outside keep definitions
  := by
  constructor
  · intro d hd
    apply ht.signerUpkeep hd
  · intro d bundle h ca hd hbundle hk hca
    apply ht.bundle hk ⟨d, hd, .bundle hbundle⟩ hca
  · intro d bundle leaf hd hstages ca trusted known
    apply ht.leafUpkeep ⟨d, hd, bundle, hstages⟩ rfl rfl

/-- A pass keeps what its writes keep. -/
theorem sync (ht : Tended outside keep definitions) (hk : keep h) :
  Works outside keep (sync watched definitions) (fun _ h' => keep h') h
  := ht.passUpkeep.sync hk

/-- A run of passes keeps what their writes keep. -/
theorem met {first : History} {p : Program Request.Answer (Except Stop Unit)}
    {lists : NameSet → List Definition → Prop}
    (ht : ∀ {watched definitions}, lists watched definitions → Tended outside keep definitions)
    (hfirst : keep first)
    (hmet : Program.Met (History.step outside)
      (fun p => ∃ watched definitions, lists watched definitions
        ∧ p = (Manager.sync watched definitions).run) first p h) :
  keep h
  := by
  apply hmet.keeps hfirst
  rintro _ h' ⟨watched, definitions, hlists, rfl⟩ hk
  apply Program.Safe.mono (Procedure.safe_iff.mp ((ht hlists).sync hk))
  intro _ _ _
  trivial

end Tended

end CertKeeper.Manager
