import CertKeeper.Proofs.Cluster.World
import CertKeeper.Proofs.Manager.Pass
import CertKeeper.Proofs.Rotation.Bundle
import CertKeeper.Proofs.Rotation.Leaf

/-!
# Stages in a calm world

In a calm world each stage brings its object in line, whatever that was before, and touches no
other object: the signer is then `SignerSettled`, the bundle `BundleSettled` and the leaf
`LeafSettled`. These say of an object that it passes the check which the stage itself makes, so a
stage whose object is settled leaves the world exactly as it is.
-/

namespace CertKeeper

/-- Certificates last for two seconds at least, and are kept for one. -/
structure Policy.Sensible (p : Policy) : Prop where
  lifetime : 2 ≤ p.lifetime.seconds
  refresh : nanosPerSecond ≤ p.refresh.nanos

namespace World

variable {watched : NameSet} {w w' w'' : World} {k : Kind} {ref : ResourceRef}

/-- Of the objects, one may have been written, which is at its place then. -/
structure Tends (watched : NameSet) (k : Kind) (ref : ResourceRef) (w w' : World) : Prop where
  calm : w'.Calm watched
  clock : w'.clock = w.clock
  others : ∀ {k' ref'}, ¬ (k' = k ∧ ref' = ref) → w'.store.find? k' ref' = w.store.find? k' ref'
  formed : ∀ o : Object k, w'.store.find? k ref = some o → o.IsAt ref

theorem Rests.tends (h : w.Rests watched w')
    (hformed : ∀ o : Object k, w.store.find? k ref = some o → o.IsAt ref) :
  w.Tends watched k ref w'
  := by
  refine ⟨h.calm, h.clock, ?_, ?_⟩
  · intro k' ref' _
    rw [h.store]
  · rw [h.store]
    apply hformed

theorem Calm.tends (hw : w.Calm watched)
    (hformed : ∀ o : Object k, w.store.find? k ref = some o → o.IsAt ref) :
  w.Tends watched k ref w
  := ⟨hw, rfl, fun _ => rfl, hformed⟩

theorem Stored.tends {o : Object k} (h : w.Stored watched ref o w') (hname : o.name = ref.name) :
  w.Tends watched k ref w'
  := by
  refine ⟨h.calm, h.clock, h.find?_of_ne, ?_⟩
  intro o' ho'
  rw [h.find?_self] at ho'
  obtain rfl := Option.some.inj ho'
  apply h.isAt hname

theorem Tends.trans (h : w.Tends watched k ref w') (h' : w'.Tends watched k ref w'') :
  w.Tends watched k ref w''
  := by
  refine ⟨h'.calm, h'.clock.trans h.clock, ?_, h'.formed⟩
  intro k' ref' hne
  rw [h'.others hne, h.others hne]

end World

namespace Procedure

variable {α β : Type} {watched : NameSet} {w : World} {ref : ResourceRef}
variable {stop : Stop → World → Prop}

/-- What follows a procedure runs from where that led. -/
theorem Leads.bind {p : Procedure α} {f : α → Procedure β} {ok : α → World → Prop}
    {ok' : β → World → Prop} (h : p.Leads ok stop w)
    (hf : ∀ a w', ok a w' → (f a).Leads ok' stop w') :
  (p >>= f).Leads ok' stop w
  := by
  apply safe_bind
  apply h.mono hf
  intro e w' he
  apply he

/-- A secret is stored over the live one that it was made from. -/
theorem leads_store {o live : Secret} {ok : Secret → World → Prop} (hw : w.Calm watched)
    (hwatched : watched.contains ref.ns) (hname : o.name = ref.name)
    (hlive : w.store.find? .secret ref = some live) (hversion : live.version = o.version)
    (h : ∀ {w'}, w.Wrote watched .update ref o w' → ok (w.store.stamped ref.ns o) w') :
  (store ref.ns o).Leads ok stop w
  := by
  unfold store
  split
  · apply leads_update hw hwatched hname hlive hversion
    intro w' hwrote _
    apply h hwrote
  · apply safe_bind
    apply leads_askCreate_of_some hw hname hlive
    intro w₁ hrests₁
    have hexists : (ApiFailure.alreadyExists .secret ref.name).isAlreadyExists = true := rfl
    simp only [hexists, if_true]
    apply safe_bind
    apply safe_bind
    have href : (⟨ref.ns, o.name⟩ : ResourceRef) = ref := by rw [hname]
    rw [href]
    apply leads_askGet hrests₁.calm
    intro w₂ hrests₂
    have hstore₂ : w₂.store = w.store := hrests₂.store.trans hrests₁.store
    rw [hrests₁.store, Store.get, hlive]
    apply safe_pure
    have hname' : ({ o with metadata := { o.metadata with version := live.version } } : Secret).name
        = ref.name := hname
    have hlive₂ : w₂.store.find? .secret ref = some live := by rw [hstore₂, hlive]
    apply leads_update hrests₂.calm hwatched hname' hlive₂ rfl
    intro w₃ hwrote _
    have hrests : w.Rests watched w₂ := ⟨hrests₂.calm, hstore₂, hrests₂.clock.trans hrests₁.clock⟩
    -- The version that is sent along is not part of what is stored.
    have hwrote' : w₂.Wrote watched .update ref o w₃ :=
      ⟨⟨hwrote.calm, hwrote.clock, hwrote.find?_self, hwrote.find?_of_ne⟩, hwrote.writes⟩
    have hok := h (hwrote'.of_rests hrests)
    rw [← hstore₂] at hok
    apply hok

end Procedure

namespace Manager

variable {watched : NameSet} {w : World} {ref bundle : ResourceRef} {d : Definition} {leaf : Leaf}
variable {ca : Authority} {stop : Stop → World → Prop}

/-! ### Preparing a secret -/

/-- The live secret carries the record of a policy. -/
structure Prepared (ref : ResourceRef) (policy : Policy) (s : Secret) (w : World) : Prop where
  live : w.store.find? .secret ref = some s
  recorded : s.annotationAt? AnnotationKey.policy = some policy.fingerprint

theorem leads_ensureSecret (hw : w.Calm watched) (hwatched : watched.contains ref.ns)
    (hformed : ∀ s : Secret, w.store.find? .secret ref = some s → s.IsAt ref) :
  (ensureSecret ref).Leads
    (fun s w' => w.Tends watched .secret ref w' ∧ w'.store.find? .secret ref = some s) stop w
  := by
  apply Procedure.safe_bind
  apply Procedure.leads_cached hw hwatched
  cases hfind : w.store.find? .secret ref with
  | some s =>
    apply Procedure.safe_pure
    exact ⟨hw.tends hformed, hfind⟩
  | none =>
    apply Procedure.safe_bind
    apply Procedure.leads_askCreate hw hwatched rfl hfind
    intro w' hstored
    apply Procedure.safe_pure
    exact ⟨hstored.tends rfl, hstored.find?_self⟩

theorem leads_ensurePolicy {s : Secret} (policy : Policy) (hw : w.Calm watched)
    (hwatched : watched.contains ref.ns) (hlive : w.store.find? .secret ref = some s)
    (hat : s.IsAt ref) :
  (ensurePolicy s ref policy).Leads
    (fun s' w' => w.Tends watched .secret ref w' ∧ Prepared ref policy s' w') stop w
  := by
  apply Procedure.safe_bind
  apply Procedure.leads_clock
  cases hrecord : s.withFingerprint? policy.fingerprint w.clock with
  | none =>
    apply Procedure.safe_pure
    refine ⟨hw.tends ?_, hlive, (Secret.withFingerprint?_eq_none _ _).mp hrecord⟩
    intro s' hs'
    obtain rfl := Option.some.inj (hlive.symm.trans hs')
    apply hat
  | some updated =>
    obtain ⟨hpolicy, -, hname, hversion, -⟩ := Secret.withFingerprint?_eq_some hrecord
    have hname' : updated.name = ref.name := hname.trans hat.2
    apply Procedure.leads_update hw hwatched hname' hlive hversion.symm
    intro w' hstored _
    exact ⟨hstored.tends hname', hstored.find?_self, hpolicy⟩

theorem prepareSecret_eq (policy : Policy) (hwatched : watched.contains ref.ns) :
  prepareSecret watched ref policy = (do
    let secret ← ensureSecret ref
    ensurePolicy secret ref policy)
  := by
  rw [prepareSecret, checkWatched_eq_ok.mpr hwatched]
  rfl

/-- A secret is prepared, whatever it was before. -/
theorem leads_prepareSecret (policy : Policy) (hw : w.Calm watched)
    (hwatched : watched.contains ref.ns)
    (hformed : ∀ s : Secret, w.store.find? .secret ref = some s → s.IsAt ref) :
  (prepareSecret watched ref policy).Leads
    (fun s w' => w.Tends watched .secret ref w' ∧ Prepared ref policy s w') stop w
  := by
  rw [prepareSecret_eq policy hwatched]
  apply (leads_ensureSecret hw hwatched hformed).bind
  rintro s w₁ ⟨htends₁, hlive⟩
  apply (leads_ensurePolicy policy htends₁.calm hwatched hlive (htends₁.formed s hlive)).mono
  · rintro s' w₂ ⟨htends₂, hprepared⟩
    exact ⟨htends₁.trans htends₂, hprepared⟩
  · intro e w₂ he
    apply he

/-- A secret that is prepared is left alone. -/
theorem leads_prepareSecret_settled {policy : Policy} {s : Secret} (hw : w.Calm watched)
    (hwatched : watched.contains ref.ns) (hprepared : Prepared ref policy s w) :
  (prepareSecret watched ref policy).Leads (fun s' w' => s' = s ∧ w' = w) stop w
  := by
  have hrecord : s.withFingerprint? policy.fingerprint w.clock = none :=
    (Secret.withFingerprint?_eq_none _ _).mpr hprepared.recorded
  rw [prepareSecret_eq policy hwatched]
  apply Procedure.safe_bind
  apply Procedure.safe_bind
  apply Procedure.leads_cached hw hwatched
  rw [hprepared.live]
  apply Procedure.safe_pure
  apply Procedure.safe_bind
  apply Procedure.leads_clock
  rw [hrecord]
  apply Procedure.safe_pure
  exact ⟨rfl, rfl⟩

/-! ### The signer stage -/

/-- The live secret of a signer passes the check of its stage. -/
def SignerSettled (w : World) (d : Definition) (ca : Authority) : Prop :=
  ∃ s, Prepared d.signer d.signerPolicy s w
    ∧ SignerRequest.check ⟨d.signer, d.signerPolicy, none⟩ s w.clock = .ok (.ok ca)

/-- The check of a signer does not stop, and the signer can be replaced at the time. -/
def SignerAble (d : Definition) (s : Secret) (now : Instant) : Prop :=
  (∃ checked, SignerRequest.check ⟨d.signer, d.signerPolicy, some s⟩ s now = .ok checked)
    ∧ ∃ v, Validity.starting now d.signerPolicy.lifetime = .ok v
      ∧ ∀ seed, ∃ ca, Authority.generate
        (SignerRequest.commonName ⟨d.signer, d.signerPolicy, some s⟩ now) v (KeyPair.generate seed)
          = .ok ca

/-- A rotation stores the secret with a new authority where the secret is, unless none can be made. -/
theorem leads_replaceSignerAt {r : SignerRequest} {s : Secret} (hw : w.Calm watched)
    (hlive : w.store.find? .secret ref = some s) (hname : s.name = ref.name) (hns : r.ref.ns = ref.ns)
    (hwatched : watched.contains ref.ns) (now : Instant) (reason : SignerRequest.Reason)
    (hstop : (∀ v, Validity.starting w.clock r.policy.lifetime = .ok v →
      ∀ ca, Authority.generate (r.commonName now) v (KeyPair.generate w.keys) ≠ .ok ca) →
      ∀ e w', stop e w') :
  (r.rotate s now reason).Leads
    (fun ca w' => ∃ v, Validity.starting w.clock r.policy.lifetime = .ok v
      ∧ Authority.generate (r.commonName now) v (KeyPair.generate w.keys) = .ok ca
      ∧ w.Wrote watched .update ref (s.withKeyPair ca.certPem ca.keyPem ca.info) w') stop w
  := by
  apply Procedure.safe_bind
  apply Procedure.leads_clock
  apply Procedure.safe_bind
  apply Procedure.safe_ofComputation
  · intro v hv
    apply Procedure.safe_bind
    apply Procedure.leads_newKey hw
    intro w₁ hrests₁
    apply Procedure.safe_bind
    apply Procedure.safe_ofResult
    · intro ca hca
      have hlive₁ : w₁.store.find? .secret ref = some s := by rw [hrests₁.store, hlive]
      have hname' : (s.withKeyPair ca.certPem ca.keyPem ca.info).name = ref.name := hname
      apply Procedure.safe_bind
      rw [hns]
      apply Procedure.leads_store hrests₁.calm hwatched hname' hlive₁ rfl
      intro w₂ hwrote
      apply Procedure.safe_bind
      apply Procedure.leads_publish hwrote.calm
      intro w₃ hrests₃
      apply Procedure.safe_pure
      exact ⟨v, hv, hca, (World.Wrote.of_rests hrests₁ hwrote).rests hrests₃⟩
    · intro e he
      apply hstop
      intro v' hv' ca hca
      cases hv.symm.trans hv'
      cases he.symm.trans hca
  · intro e he
    apply hstop
    intro v hv
    cases he.symm.trans hv

theorem leads_replaceSigner {r : SignerRequest} {s : Secret} (hw : w.Calm watched)
    (hwatched : watched.contains r.ref.ns) (hlive : w.store.find? .secret r.ref = some s)
    (hname : s.name = r.ref.name) (now : Instant) (reason : SignerRequest.Reason)
    (hstop : (∀ v, Validity.starting w.clock r.policy.lifetime = .ok v →
      ∀ ca, Authority.generate (r.commonName now) v (KeyPair.generate w.keys) ≠ .ok ca) →
      ∀ e w', stop e w') :
  (r.rotate s now reason).Leads
    (fun ca w' => ∃ v, Validity.starting w.clock r.policy.lifetime = .ok v
      ∧ Authority.generate (r.commonName now) v (KeyPair.generate w.keys) = .ok ca
      ∧ w.Wrote watched .update r.ref (s.withKeyPair ca.certPem ca.keyPem ca.info) w') stop w
  := leads_replaceSignerAt hw hlive hname rfl hwatched now reason hstop

theorem leads_rotateSigner {s : Secret} (hw : w.Calm watched)
    (hwatched : watched.contains d.signer.ns) (hpolicy : d.signerPolicy.Sensible)
    (hprepared : Prepared d.signer d.signerPolicy s w) (hat : s.IsAt d.signer)
    (hstop : ¬ SignerAble d s w.clock → ∀ e w', stop e w')
    (reason : SignerRequest.Reason) :
  (SignerRequest.rotate ⟨d.signer, d.signerPolicy, some s⟩ s w.clock reason).Leads
    (fun ca w' => w.Tends watched .secret d.signer w' ∧ SignerSettled w' d ca) stop w
  := by
  apply (leads_replaceSigner (r := ⟨d.signer, d.signerPolicy, some s⟩) hw hwatched hprepared.live hat.2
    w.clock reason _).mono
  · rintro ca w' ⟨v, hv, hca, hwrote⟩
    obtain ⟨hsound, hinfo⟩ := Authority.generate_eq_ok hv hca
    constructor
    · apply hwrote.tends hat.2
    · refine ⟨w.store.stamped d.signer.ns (s.withKeyPair ca.certPem ca.keyPem ca.info), ⟨?_, ?_⟩, ?_⟩
      · apply hwrote.find?_self
      · rw [Object.annotationAt?_stamped, Secret.policy_withKeyPair, hprepared.recorded]
      · rw [hwrote.clock, SignerRequest.check_stamped]
        apply SignerRequest.check_withKeyPair hsound.loaded hv _ _ hpolicy.lifetime hpolicy.refresh
        · rw [hinfo]
        · rw [hinfo]
  · intro e w' he
    apply he
  · intro hnone
    apply hstop
    rintro ⟨-, v, hv, hable⟩
    obtain ⟨ca, hca⟩ := hable w.keys
    exact hnone v hv ca hca

/-- A signer is settled, whatever it was before, unless its check stops or a new one cannot be
made. -/
theorem leads_signerStage {inv : Secret → World → Prop} (hw : w.Calm watched)
    (hwatched : watched.contains d.signer.ns) (hpolicy : d.signerPolicy.Sensible)
    (hformed : ∀ s : Secret, w.store.find? .secret d.signer = some s → s.IsAt d.signer)
    (hinv : (prepareSecret watched d.signer d.signerPolicy).Leads inv stop w)
    (hstop : ∀ s w', inv s w' → w'.clock = w.clock → Prepared d.signer d.signerPolicy s w' →
      ¬ SignerAble d s w'.clock → ∀ e w'', stop e w'') :
  (signerStage watched d).Leads
    (fun ca w' => w.Tends watched .secret d.signer w' ∧ SignerSettled w' d ca) stop w
  := by
  apply ((leads_prepareSecret d.signerPolicy hw hwatched hformed).and hinv).bind
  rintro s w₁ ⟨⟨htends₁, hprepared⟩, hinv₁⟩
  have hat : s.IsAt d.signer := htends₁.formed s hprepared.live
  have hunable := hstop s w₁ hinv₁ htends₁.clock hprepared
  rw [SignerRequest.ensure_eq rfl]
  apply Procedure.safe_bind
  apply Procedure.leads_clock
  apply Procedure.safe_bind
  apply Procedure.safe_ofComputation
  · intro checked hchecked
    cases checked with
    | ok ca =>
      apply Procedure.safe_pure
      exact ⟨htends₁, s, hprepared, hchecked⟩
    | error reason =>
      apply (leads_rotateSigner htends₁.calm hwatched hpolicy hprepared hat hunable reason).mono
      · rintro ca w₂ ⟨htends₂, hsettled⟩
        exact ⟨htends₁.trans htends₂, hsettled⟩
      · intro e w₂ he
        apply he
  · intro e he
    apply hunable
    rintro ⟨⟨checked, hchecked⟩, -⟩
    cases he.symm.trans hchecked

/-- A signer that is settled is left alone. -/
theorem leads_signerStage_settled (hw : w.Calm watched) (hwatched : watched.contains d.signer.ns)
    (hsettled : SignerSettled w d ca) :
  (signerStage watched d).Leads (fun ca' w' => ca' = ca ∧ w' = w) stop w
  := by
  obtain ⟨s, hprepared, hcheck⟩ := hsettled
  apply (leads_prepareSecret_settled hw hwatched hprepared).bind
  rintro _ _ ⟨rfl, rfl⟩
  rw [SignerRequest.ensure_eq rfl]
  apply Procedure.safe_bind
  apply Procedure.leads_clock
  apply Procedure.safe_bind
  apply Procedure.safe_ofComputation
  · intro checked hchecked
    cases hcheck.symm.trans hchecked
    apply Procedure.safe_pure
    exact ⟨rfl, rfl⟩
  · intro e he
    cases hcheck.symm.trans he

theorem SignerSettled.loaded (hsettled : SignerSettled w d ca) :
  ca.Loaded
  := by
  obtain ⟨s, -, hcheck⟩ := hsettled
  apply Secret.loaded_of_authority (SignerRequest.check_eq_ok_ok.mp hcheck).1

/-! ### The bundle stage -/

/-- The live bundle is what the stage for an authority would write. -/
def BundleSettled (w : World) (bundle : ResourceRef) (ca : Authority)
    (certs : List TrustedCertificate) : Prop :=
  ∃ m : ConfigMap, w.store.find? .configMap bundle = some m
    ∧ certs = Bundle.merge w.clock ca.trusted (Bundle.listed (some m))
    ∧ m.text? EntryKey.bundle = some (encodeBundle certs)

theorem BundleSettled.listed {certs : List TrustedCertificate} (hca : ca.trusted.Genuine)
    (hsettled : BundleSettled w bundle ca certs) :
  ∃ m rest, w.store.find? .configMap bundle = some m ∧ Bundle.listed (some m) = ca.trusted :: rest
    ∧ certs = ca.trusted :: rest ∧ ∀ cert ∈ certs, cert.Genuine
  := by
  obtain ⟨m, hfind, hcerts, htext⟩ := hsettled
  have hgenuine : ∀ cert ∈ certs, cert.Genuine := by
    intro cert hcert
    rw [hcerts] at hcert
    apply Bundle.genuine_of_mem_merge hca hcert
  have hlist := Bundle.listed_of_text hgenuine htext
  have hfirst := hcerts
  rw [Bundle.merge_eq] at hfirst
  exact ⟨m, _, hfind, hlist.trans hfirst, hfirst, hgenuine⟩

/-- A publication ends with the event. What was written lists the certificates, and to merge them
once more changes nothing. -/
theorem leads_reported {live : Option ConfigMap} {certs : List TrustedCertificate} {w' : World}
    (hca : ca.trusted.Genuine) (hcerts : certs = Bundle.merge w.clock ca.trusted (Bundle.listed live))
    (hname : (Bundle.rewritten bundle live certs).name = bundle.name)
    (hstored : w.Stored watched bundle (Bundle.rewritten bundle live certs) w')
    (reason action note : String) :
  (do
    Procedure.publish (w.store.stamped bundle.ns (Bundle.rewritten bundle live certs)) reason action
      note
    return certs : Procedure (List TrustedCertificate)).Leads
    (fun result w' => w.Tends watched .configMap bundle w' ∧ BundleSettled w' bundle ca result
      ∧ result = certs) stop w'
  := by
  have htends := hstored.tends hname
  have hlisted : Bundle.listed (some (w.store.stamped bundle.ns (Bundle.rewritten bundle live certs)))
      = certs := by
    rw [hcerts]
    apply Bundle.listed_stamped hca
  apply Procedure.safe_bind
  apply Procedure.leads_publish hstored.calm
  intro w₂ hrests
  apply Procedure.safe_pure
  refine ⟨htends.trans (hrests.tends htends.formed),
    ⟨w.store.stamped bundle.ns (Bundle.rewritten bundle live certs), ?_, ?_, ?_⟩, rfl⟩
  · rw [hrests.store, hstored.find?_self]
  · rw [hrests.clock, hstored.clock, hlisted, hcerts, Bundle.merge_merge]
  · apply Bundle.text?_stamped_rewritten

/-- A bundle is settled by its publication, whatever it was before. -/
theorem leads_publishBundle (hw : w.Calm watched) (hwatched : watched.contains bundle.ns)
    (hformed : ∀ m : ConfigMap, w.store.find? .configMap bundle = some m → m.IsAt bundle)
    (hca : ca.Loaded) :
  (Bundle.publish bundle ca (w.store.find? .configMap bundle)).Leads
    (fun certs w' => w.Tends watched .configMap bundle w' ∧ BundleSettled w' bundle ca certs
      ∧ certs = Bundle.merge w.clock ca.trusted (Bundle.listed (w.store.find? .configMap bundle)))
    stop w
  := by
  obtain ⟨live, hlive⟩ : ∃ live, w.store.find? .configMap bundle = live := ⟨_, rfl⟩
  obtain ⟨certs, hcerts⟩ : ∃ certs, certs = Bundle.merge w.clock ca.trusted (Bundle.listed live) :=
    ⟨_, rfl⟩
  apply Procedure.safe_bind
  apply Procedure.leads_clock
  simp only [Bundle.listed_eq, hlive, ← hcerts]
  split
  · rename_i hkept
    obtain ⟨m, rfl⟩ := Option.isSome_iff_exists.mp hkept.1
    apply Procedure.safe_pure
    refine ⟨hw.tends hformed, ⟨m, hlive, hcerts, ?_⟩, rfl⟩
    rw [hcerts]
    apply Bundle.text?_of_encodeBundle_merge hca.certPem_ne_empty
    rw [← hcerts]
    apply hkept.2
  · -- The live version decides between an update and a creation.
    cases live with
    | some m =>
      have hname : (Bundle.rewritten bundle (some m) certs).name = bundle.name := (hformed m hlive).2
      apply Procedure.safe_bind
      apply Procedure.leads_update hw hwatched hname hlive rfl
      intro w₁ hwrote _
      apply leads_reported hca.genuine hcerts hname hwrote.toStored
    | none =>
      apply Procedure.safe_bind
      apply Procedure.leads_create hw hwatched (o := Bundle.rewritten bundle none certs) rfl hlive
      intro w₁ hwrote
      apply leads_reported hca.genuine hcerts rfl hwrote.toStored

theorem bundleStage_eq (hwatched : watched.contains bundle.ns) :
  bundleStage watched bundle ca = Bundle.ensure bundle ca
  := by
  rw [bundleStage, checkWatched_eq_ok.mpr hwatched]
  rfl

/-- A bundle is settled, whatever it was before, and lists what it listed as long as that has not
expired. -/
theorem leads_bundleStage (hw : w.Calm watched) (hwatched : watched.contains bundle.ns)
    (hformed : ∀ m : ConfigMap, w.store.find? .configMap bundle = some m → m.IsAt bundle)
    (hca : ca.Loaded) :
  (bundleStage watched bundle ca).Leads
    (fun certs w' => w.Tends watched .configMap bundle w' ∧ BundleSettled w' bundle ca certs
      ∧ certs = Bundle.merge w.clock ca.trusted (Bundle.listed (w.store.find? .configMap bundle)))
    stop w
  := by
  rw [bundleStage_eq hwatched, Bundle.ensure_eq]
  apply Procedure.safe_bind
  apply Procedure.safe_bind
  apply Procedure.leads_cached hw hwatched
  cases hfind : w.store.find? .configMap bundle with
  | some m =>
    apply Procedure.safe_pure
    apply Procedure.safe_tryCatch
    rw [← hfind]
    apply leads_publishBundle hw hwatched hformed hca
  | none =>
    apply Procedure.leads_find hw
    intro w₁ hrests
    apply Procedure.safe_tryCatch
    have hformed₁ := (hrests.tends hformed).formed
    rw [← hrests.store]
    apply (leads_publishBundle hrests.calm hwatched hformed₁ hca).mono
    · rintro certs w₂ ⟨htends, hsettled, hmerged⟩
      rw [hrests.clock, hrests.store, hfind] at hmerged
      exact ⟨(hrests.tends hformed).trans htends, hsettled, hmerged⟩
    · intro e w₂ he
      apply he

/-- A bundle that is settled is left alone. -/
theorem leads_bundleStage_settled {certs : List TrustedCertificate} (hw : w.Calm watched)
    (hwatched : watched.contains bundle.ns) (hsettled : BundleSettled w bundle ca certs) :
  (bundleStage watched bundle ca).Leads (fun certs' w' => certs' = certs ∧ w' = w) stop w
  := by
  obtain ⟨m, hfind, hcerts, htext⟩ := hsettled
  rw [bundleStage_eq hwatched, Bundle.ensure_eq]
  apply Procedure.safe_bind
  apply Procedure.safe_bind
  apply Procedure.leads_cached hw hwatched
  rw [hfind]
  apply Procedure.safe_pure
  apply Procedure.safe_tryCatch
  apply Procedure.safe_bind
  apply Procedure.leads_clock
  simp only [Bundle.listed_eq, ← hcerts]
  rw [if_pos]
  · apply Procedure.safe_pure
    exact ⟨rfl, rfl⟩
  · rw [Option.getD_some, htext]
    exact ⟨rfl, rfl⟩

/-! ### The leaf stage -/

/-- The live secret of a leaf passes the check of its stage. -/
def LeafSettled (w : World) (leaf : Leaf) (ca : Authority) : Prop :=
  ∃ s, Prepared leaf.secret leaf.policy s w
    ∧ LeafStage.reason? ⟨leaf.secret, leaf.policy, leafRequest leaf, none⟩ s ca w.clock = .ok none

/-- The check of a leaf does not stop, and a new certificate can be issued at the time. -/
def LeafAble (leaf : Leaf) (ca : Authority) (s : Secret) (now : Instant) : Prop :=
  (∃ reason, LeafStage.reason? ⟨leaf.secret, leaf.policy, leafRequest leaf, some s⟩ s ca now
      = .ok reason)
    ∧ (∃ prepared, ca.prepare (leafRequest leaf) now leaf.policy.lifetime = .ok prepared)
    ∧ ∀ seed, ∃ issued,
      ca.sign (leafRequest leaf) now leaf.policy.lifetime (KeyPair.generate seed) = .ok issued

/-- A rotation stores the secret with a new certificate where the secret is, unless none can be issued. -/
theorem leads_replaceLeafAt {r : LeafStage} {s : Secret} (hw : w.Calm watched)
    (hlive : w.store.find? .secret ref = some s) (hname : s.name = ref.name) (hns : r.ref.ns = ref.ns)
    (hwatched : watched.contains ref.ns) (trusted : List TrustedCertificate) (reason : LeafStage.Reason)
    (hstop : (∀ issued, ca.sign r.request w.clock r.policy.lifetime (KeyPair.generate w.keys)
      ≠ .ok issued) → ∀ e w', stop e w') :
  (r.rotate s ca trusted reason).Leads
    (fun _ w' => ∃ issued,
      ca.sign r.request w.clock r.policy.lifetime (KeyPair.generate w.keys) = .ok issued
      ∧ w.Wrote watched .update ref (r.filled s ca trusted issued) w') stop w
  := by
  apply Procedure.safe_bind
  apply Procedure.safe_bind
  apply Procedure.leads_clock
  apply Procedure.safe_bind
  apply Procedure.safe_ofComputation
  · intro _ _
    apply Procedure.safe_bind
    apply Procedure.leads_newKey hw
    intro w₁ hrests₁
    apply Procedure.safe_ofComputation
    · intro issued hsign
      have hlive₁ : w₁.store.find? .secret ref = some s := by rw [hrests₁.store, hlive]
      have hname' : (r.filled s ca trusted issued).name = ref.name :=
        LeafStage.name_filled.trans hname
      apply Procedure.safe_bind
      rw [hns]
      apply Procedure.leads_store hrests₁.calm hwatched hname' hlive₁ LeafStage.version_filled.symm
      intro w₂ hwrote
      apply Procedure.leads_publish hwrote.calm
      intro w₃ hrests₃
      exact ⟨issued, hsign, (World.Wrote.of_rests hrests₁ hwrote).rests hrests₃⟩
    · intro e he
      apply hstop
      intro issued hsign
      cases he.symm.trans hsign
  · intro e he
    apply hstop
    intro issued hsign
    rw [Authority.sign, he] at hsign
    cases hsign

theorem leads_replaceLeaf {r : LeafStage} {s : Secret} (hw : w.Calm watched)
    (hwatched : watched.contains r.ref.ns) (hlive : w.store.find? .secret r.ref = some s)
    (hname : s.name = r.ref.name) (trusted : List TrustedCertificate) (reason : LeafStage.Reason)
    (hstop : (∀ issued, ca.sign r.request w.clock r.policy.lifetime (KeyPair.generate w.keys)
      ≠ .ok issued) → ∀ e w', stop e w') :
  (r.rotate s ca trusted reason).Leads
    (fun _ w' => ∃ issued,
      ca.sign r.request w.clock r.policy.lifetime (KeyPair.generate w.keys) = .ok issued
      ∧ w.Wrote watched .update r.ref (r.filled s ca trusted issued) w') stop w
  := leads_replaceLeafAt hw hlive hname rfl hwatched trusted reason hstop

theorem leads_rotateLeaf {r : LeafStage} {s : Secret} {rest : List TrustedCertificate}
    (hr : r = ⟨leaf.secret, leaf.policy, leafRequest leaf, some s⟩) (hw : w.Calm watched)
    (hwatched : watched.contains leaf.secret.ns) (hpolicy : leaf.policy.Sensible)
    (hprepared : Prepared leaf.secret leaf.policy s w) (hat : s.IsAt leaf.secret)
    (hgenuine : ∀ cert ∈ ca.trusted :: rest, cert.Genuine)
    (hstop : ¬ LeafAble leaf ca s w.clock → ∀ e w', stop e w') (reason : LeafStage.Reason) :
  (r.rotate s ca (ca.trusted :: rest) reason).Leads
    (fun _ w' => w.Tends watched .secret leaf.secret w' ∧ LeafSettled w' leaf ca) stop w
  := by
  have hlive : w.store.find? .secret r.ref = some s := by rw [hr, hprepared.live]
  have hname : s.name = r.ref.name := by rw [hr, hat.2]
  apply (leads_replaceLeaf hw (by rw [hr]; apply hwatched) hlive hname (ca.trusted :: rest) reason _).mono
  · rintro _ w' ⟨issued, hsign, hwrote⟩
    have hkept : r.reason? (r.filled s ca (ca.trusted :: rest) issued) ca w.clock = .ok none := by
      apply LeafStage.reason?_filled hsign hgenuine
      · rw [hr]
        apply hpolicy.lifetime
      · rw [hr]
        apply hpolicy.refresh
    have hlive' := hwrote.find?_self
    have htends := hwrote.tends (LeafStage.name_filled.trans hname)
    rw [show r.ref = leaf.secret by rw [hr]] at hlive' htends
    refine ⟨htends, _, ⟨hlive', ?_⟩, ?_⟩
    · rw [Object.annotationAt?_stamped, LeafStage.policy_filled, hprepared.recorded]
    · rw [hwrote.clock, LeafStage.reason?_stamped, ← hkept, hr]
      rfl
  · intro e w' he
    apply he
  · intro hnone
    apply hstop
    rintro ⟨-, -, hable⟩
    obtain ⟨issued, hissued⟩ := hable w.keys
    rw [hr] at hnone
    exact hnone issued hissued

/-- A leaf is settled, whatever it was before, unless its check stops or a new certificate cannot
be issued. -/
theorem leads_leafStage {inv : Secret → World → Prop} {rest : List TrustedCertificate}
    (hw : w.Calm watched) (hwatched : watched.contains leaf.secret.ns)
    (hpolicy : leaf.policy.Sensible)
    (hformed : ∀ s : Secret, w.store.find? .secret leaf.secret = some s → s.IsAt leaf.secret)
    (hgenuine : ∀ cert ∈ ca.trusted :: rest, cert.Genuine)
    (hinv : (prepareSecret watched leaf.secret leaf.policy).Leads inv stop w)
    (hstop : ∀ s w', inv s w' → w'.clock = w.clock → Prepared leaf.secret leaf.policy s w' →
      ¬ LeafAble leaf ca s w'.clock → ∀ e w'', stop e w'') :
  (leafStage watched leaf ca (ca.trusted :: rest)).Leads
    (fun _ w' => w.Tends watched .secret leaf.secret w' ∧ LeafSettled w' leaf ca) stop w
  := by
  apply ((leads_prepareSecret leaf.policy hw hwatched hformed).and hinv).bind
  rintro s w₁ ⟨⟨htends₁, hprepared⟩, hinv₁⟩
  have hat : s.IsAt leaf.secret := htends₁.formed s hprepared.live
  have hunable := hstop s w₁ hinv₁ htends₁.clock hprepared
  rw [LeafStage.ensure_eq rfl]
  apply Procedure.safe_bind
  apply Procedure.leads_clock
  apply Procedure.safe_bind
  apply Procedure.safe_ofComputation
  · intro reason hreason
    cases reason with
    | none =>
      apply Procedure.safe_pure
      exact ⟨htends₁, s, hprepared, hreason⟩
    | some reason =>
      apply (leads_rotateLeaf rfl htends₁.calm hwatched hpolicy hprepared hat hgenuine hunable
        reason).mono
      · rintro _ w₂ ⟨htends₂, hsettled⟩
        exact ⟨htends₁.trans htends₂, hsettled⟩
      · intro e w₂ he
        apply he
  · intro e he
    apply hunable
    rintro ⟨⟨reason, hreason⟩, -⟩
    cases he.symm.trans hreason

/-- A leaf that is settled is left alone. -/
theorem leads_leafStage_settled (trusted : List TrustedCertificate) (hw : w.Calm watched)
    (hwatched : watched.contains leaf.secret.ns) (hsettled : LeafSettled w leaf ca) :
  (leafStage watched leaf ca trusted).Leads (fun _ w' => w' = w) stop w
  := by
  obtain ⟨s, hprepared, hreason⟩ := hsettled
  apply (leads_prepareSecret_settled hw hwatched hprepared).bind
  rintro _ _ ⟨rfl, rfl⟩
  rw [LeafStage.ensure_eq rfl]
  apply Procedure.safe_bind
  apply Procedure.leads_clock
  apply Procedure.safe_bind
  apply Procedure.safe_ofComputation
  · intro reason hreason'
    cases hreason.symm.trans hreason'
    apply Procedure.safe_pure
    rfl
  · intro e he
    cases hreason.symm.trans he

end Manager

end CertKeeper
