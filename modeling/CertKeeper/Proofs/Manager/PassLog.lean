import CertKeeper.Proofs.Manager.Segment
import CertKeeper.Proofs.Rotation.Refusal

/-!
# The log of a pass

A pass in quiet surroundings that goes through commits, for one definition after the other, a segment
of the signer stage, one of the bundle stage and one of the leaf stage, whatever was stored before, and
the segments of stages that a definition does not ask for are empty (`Manager.sync_log`). A signer that
was replaced is new to the bundle and to the leaf. So if the segment of the signer stage is not empty,
those of the other stages are not empty either.
-/

namespace CertKeeper.Manager

variable {q : Quiet} {h h' : History} {bundle : ResourceRef} {log : List Commit} {copy : Secret}
variable {d : Definition} {leaf : Leaf} {ca : Authority} {stop : Stop → History → Prop}

/-! ### The signer stage -/

/-- What a signer stage has committed. If it is anything, the authority is a new one. -/
structure SignerCommits (q : Quiet) (d : Definition) (h : History) (ca : Authority) (log : List Commit)
    (h' : History) : Prop where
  appends : h.Extends (History.only .secret d.signer) log h'
  segment : q.Proper → SecretSegment d.signer d.signerPolicy log
  loaded : ca.Loaded
  unlisted : q.Proper → log ≠ [] → ca.Unlisted h'.store

theorem quietly_rotateSigner {r : SignerRequest} (ho : h.Orderly q)
    (hlive : h.store.find? .secret r.ref = some copy)
    (hcarries : copy.annotationAt? AnnotationKey.policy = some r.policy.fingerprint) (now : Instant)
    (reason : SignerRequest.Reason) :
  (r.rotate copy now reason).Quietly q
    (fun ca h' => ca.Loaded ∧ (q.Proper → ca.Unlisted h'.store) ∧ ∃ after, copy.Rotated r.policy after
      ∧ after.IsAt r.ref
      ∧ h.Extends (History.only .secret r.ref) [⟨.secret, some copy, after⟩] h')
    (fun e _ => ¬ e.IsRefusal) h
  := by
  apply Procedure.safe_bind
  apply Procedure.quietly_clock ho
  intro h₁ hrests₁ ho₁
  apply Procedure.safe_bind
  apply Procedure.safe_ofComputation
  · intro v hv
    apply Procedure.safe_bind
    apply Procedure.quietly_newKey ho₁
    intro h₂ seed hrests₂ hmakes
    apply Procedure.safe_bind
    apply Procedure.safe_ofResult
    · intro ca hca
      have ho₂ := ho₁.rests hrests₂
      have hlive₂ : h₂.store.find? .secret r.ref = some copy := by
        rw [hrests₂.store, hrests₁.store, hlive]
      have hnamed : copy.name = r.ref.name := ho₂.named hlive₂
      have hname : (copy.withKeyPair ca.certPem ca.keyPem ca.info).name = r.ref.name := hnamed
      have hauthority : (copy.withKeyPair ca.certPem ca.keyPem ca.info).text? EntryKey.authority
          = copy.text? EntryKey.authority := by
        rw [Secret.text?_withKeyPair, if_neg (by decide), if_neg (by decide)]
      apply Procedure.safe_bind
      apply Procedure.quietly_store ho₂ hname hlive₂ rfl
      intro h₃ h₄ hrests₃ hw
      have hlive₃ : h₃.store.find? .secret r.ref = some copy := by rw [hrests₃.store, hlive₂]
      have hunlisted : q.Proper → ca.Unlisted h₃.store := by
        intro hproper
        apply Authority.unlisted_of_not_lists
        rw [hrests₃.store, hrests₂.store]
        apply hproper.new _ _ hmakes _ _ _ hca
      apply Procedure.safe_bind
      apply Procedure.quietly_publish ((ho₂.rests hrests₃).wrote hw)
      intro h₅ hrests₅
      apply Procedure.safe_pure
      refine ⟨(Authority.generate_eq_ok hv hca).1.loaded, ?_, _,
        Secret.rotated_withKeyPair hcarries hv hca _ _, hw.isAt, ?_⟩
      · intro hproper
        rw [hrests₅.store]
        apply (hunlisted hproper).wrote hlive₃ hauthority hw
      · have hrests := hrests₁.trans (hrests₂.trans hrests₃)
        apply (hw.extends_of_rests hrests hlive).rests hrests₅
    · intro e he
      exact (Authority.fault_generate _ _ _ e he).not_isRefusal
  · exact (Validity.faultsOnly_starting _ _).unrefused

/-- A secret that is not due was opened without a commit. -/
theorem Opened.eq_nil {ref : ResourceRef} {policy : Policy} {refresh : Duration} {now : Instant}
    (hopened : Opened q ref policy h copy log h') (hproper : q.Proper) (hlater : ¬ now.before h'.clock)
    (hdue : copy.metadata.due? refresh now = .ok none) :
  log = []
  := by
  apply Classical.byContradiction
  intro hne
  obtain ⟨reason, hreason⟩ := hopened.due hproper hne refresh now hlater
  cases hdue.symm.trans hreason

/-- The signer of a secret that was opened is kept or rotated. -/
theorem quietly_ensureSigner (ho : h'.Orderly q) (hopened : Opened q d.signer d.signerPolicy h copy log h') :
  (SignerRequest.ensure ⟨d.signer, d.signerPolicy, some copy⟩).Quietly q
    (fun ca h' => ∃ log, SignerCommits q d h ca log h') (fun e _ => ¬ e.IsRefusal) h'
  := by
  rw [SignerRequest.ensure_eq rfl]
  apply Procedure.safe_bind
  apply Procedure.quietly_clock ho
  intro h₂ hrests₂ ho₂
  have hopens := hopened.appends.rests hrests₂
  apply Procedure.safe_bind
  apply Procedure.safe_ofComputation
  · intro checked hchecked
    cases checked with
    | ok ca =>
      obtain ⟨hauthority, hdue⟩ := SignerRequest.check_eq_ok_ok.mp hchecked
      have hempty : q.Proper → log = [] := fun hproper => hopened.eq_nil hproper hrests₂.clock hdue
      apply Procedure.safe_pure
      refine ⟨log, hopens, ?_, Secret.loaded_of_authority hauthority, ?_⟩
      · intro hproper
        rw [hempty hproper]
        apply SecretSegment.kept
      · intro hproper hne
        exact absurd (hempty hproper) hne
    | error reason =>
      have hlive₂ : h₂.store.find? .secret d.signer = some copy := by rw [hrests₂.store, hopened.live]
      have hcarries := hopened.opening.carries
      apply Procedure.safe_mono (quietly_rotateSigner (r := ⟨d.signer, d.signerPolicy, some copy⟩) ho₂
        hlive₂ hcarries _ reason)
      rintro ca h₃ ⟨hloaded, hunlisted, after, hrotated, hat, hextends⟩
      have hsegment := hopened.opening.rotated hrotated hat
      exact ⟨_, hopens.trans hextends, fun _ => hsegment, hloaded,
        fun hproper _ => hunlisted hproper⟩
  · exact (SignerRequest.faultsOnly_check _ _ _).unrefused

/-- A signer stage commits a segment. -/
theorem quietly_signerStage (ho : h.Orderly q) (hwatched : q.watched.contains d.signer.ns) :
  (signerStage q.watched d).Quietly q (fun ca h' => ∃ log, SignerCommits q d h ca log h')
    (fun e _ => ¬ e.IsRefusal) h
  := by
  apply Procedure.Quietly.bind ho (quietly_prepareSecret ho hwatched d.signerPolicy)
  rintro copy h₁ ho₁ ⟨log, hopened⟩
  apply quietly_ensureSigner ho₁ hopened

/-! ### The bundle stage -/

/-- What a bundle stage has committed, which is something if the authority was not listed. -/
structure BundleCommits (bundle : ResourceRef) (ca : Authority) (h : History)
    (certs : List TrustedCertificate) (log : List Commit) (h' : History) : Prop where
  appends : h.Extends (History.only .configMap bundle) log h'
  segment : BundleSegment bundle log
  answers : ca.Unlisted h.store → log ≠ []
  first : ∃ rest, certs = ca.trusted :: rest ∧ ∀ cert ∈ certs, cert.Genuine

theorem BundleCommits.of_rests {h₁ h₂ : History} {certs : List TrustedCertificate}
    (hb : BundleCommits bundle ca h₁ certs log h₂) (hrests : h.Rests q h₁) :
  BundleCommits bundle ca h certs log h₂
  := by
  refine ⟨(hrests.extends _).trans hb.appends, hb.segment, ?_, hb.first⟩
  rw [← hrests.store]
  apply hb.answers

/-- A publication ends with the event. -/
theorem quietly_reported {h₁ : History} {certs : List TrustedCertificate} (ho : h₁.Orderly q)
    (hb : BundleCommits bundle ca h certs log h₁) (stored : ConfigMap) (reason action note : String) :
  (do
    Procedure.publish stored reason action note
    return certs : Procedure (List TrustedCertificate)).Quietly q
    (fun certs h' => ∃ log, BundleCommits bundle ca h certs log h') stop h₁
  := by
  apply Procedure.safe_bind
  apply Procedure.quietly_publish ho
  intro h₂ hrests₂
  apply Procedure.safe_pure
  exact ⟨log, hb.appends.rests hrests₂, hb.segment, hb.answers, hb.first⟩

/-- The publication of a bundle writes it, unless it lists the authority first already. -/
theorem quietly_publishBundle (hca : ca.Loaded) (ho : h.Orderly q) :
  (Bundle.publish bundle ca (h.store.find? .configMap bundle)).Quietly q
    (fun certs h' => ∃ log, BundleCommits bundle ca h certs log h') stop h
  := by
  obtain ⟨live, hlive⟩ : ∃ live, h.store.find? .configMap bundle = live := ⟨_, rfl⟩
  apply Procedure.safe_bind
  apply Procedure.quietly_clock ho
  intro h₁ hrests₁ ho₁
  obtain ⟨certs, hcerts⟩ : ∃ certs, certs = Bundle.merge h₁.clock ca.trusted (Bundle.listed live) :=
    ⟨_, rfl⟩
  have hgenuine : ∀ cert ∈ certs, cert.Genuine := by
    rw [hcerts]
    intro cert hcert
    apply Bundle.genuine_of_mem_merge hca.genuine hcert
  have hfirst : ∃ rest, certs = ca.trusted :: rest ∧ ∀ cert ∈ certs, cert.Genuine :=
    ⟨_, hcerts.trans (Bundle.merge_eq _ _ _), hgenuine⟩
  have hlive₁ : h₁.store.find? .configMap bundle = live := by rw [hrests₁.store, hlive]
  simp only [Bundle.listed_eq, hlive, ← hcerts]
  split
  · rename_i hkept
    obtain ⟨m, rfl⟩ := Option.isSome_iff_exists.mp hkept.1
    apply Procedure.safe_pure
    refine ⟨[], hrests₁.extends _, .kept, ?_, hfirst⟩
    -- What is up to date lists the authority.
    intro hunlisted
    have htext := hkept.2
    rw [hcerts] at htext
    have hlisted : ca.trusted ∈ Bundle.listed (h.store.find? .configMap bundle) := by
      rw [hlive]
      apply Bundle.mem_listed_of_current hca.genuine htext
    exact absurd rfl (hunlisted.bundles bundle _ hlisted)
  · -- The live version decides between an update and a creation.
    cases live with
    | some m =>
      have hnamed : m.name = bundle.name := ho₁.named hlive₁
      have hname : (Bundle.rewritten bundle (some m) certs).name = bundle.name := hnamed
      apply Procedure.safe_bind
      apply Procedure.quietly_update ho₁ hname hlive₁ rfl
      intro h₂ h₃ hrests₂ hw
      have hextends := hw.extends_of_rests (hrests₁.trans hrests₂) hlive
      apply quietly_reported ((ho₁.rests hrests₂).wrote hw)
        ⟨hextends, .updated hw.isAt, fun _ => List.cons_ne_nil _ _, hfirst⟩
    | none =>
      apply Procedure.safe_bind
      apply Procedure.safe_bind
      have hname : (Bundle.rewritten bundle none certs).name = bundle.name := rfl
      apply Procedure.quietly_askCreate ho₁ hname hlive₁
      intro h₂ h₃ hrests₂ hw
      have hextends := hw.extends_of_rests (hrests₁.trans hrests₂) hlive
      apply Procedure.safe_pure
      apply quietly_reported ((ho₁.rests hrests₂).wrote hw)
        ⟨hextends, .created hw.isAt, fun _ => List.cons_ne_nil _ _, hfirst⟩

/-- A bundle stage commits a segment. -/
theorem quietly_bundleStage (hca : ca.Loaded) (ho : h.Orderly q)
    (hwatched : q.watched.contains bundle.ns) :
  (bundleStage q.watched bundle ca).Quietly q
    (fun certs h' => ∃ log, BundleCommits bundle ca h certs log h') stop h
  := by
  -- The first attempt never stops.
  have hattempt : ∀ {h₁ : History}, h.Rests q h₁ →
      (tryCatch (Bundle.publish bundle ca (h.store.find? .configMap bundle))
        (Bundle.retry bundle ca)).Quietly q
        (fun certs h' => ∃ log, BundleCommits bundle ca h certs log h') stop h₁ := by
    intro h₁ hrests₁
    apply Procedure.safe_tryCatch
    rw [← hrests₁.store]
    apply Procedure.safe_mono (quietly_publishBundle hca (ho.rests hrests₁))
    rintro certs h₂ ⟨log, hb⟩
    exact ⟨log, hb.of_rests hrests₁⟩
  rw [bundleStage_eq hwatched, Bundle.ensure_eq]
  apply Procedure.safe_bind
  apply Procedure.safe_bind
  apply Procedure.quietly_cached ho hwatched
  intro h₁ hrests₁
  cases hfind : h.store.find? .configMap bundle with
  | some m =>
    rw [hfind] at hattempt
    apply Procedure.safe_pure
    apply hattempt hrests₁
  | none =>
    apply Procedure.quietly_find (ho.rests hrests₁)
    intro h₂ hrests₂
    rw [hrests₁.store]
    apply hattempt (hrests₁.trans hrests₂)

/-! ### The leaf stage -/

/-- What a leaf stage has committed, which is something if no leaf was told to trust the authority
first. The certificate serves then. -/
structure LeafCommits (q : Quiet) (leaf : Leaf) (ca : Authority) (h : History) (log : List Commit)
    (h' : History) : Prop where
  appends : h.Extends (History.only .secret leaf.secret) log h'
  segment : q.Proper → SecretSegment leaf.secret leaf.policy log
  answers : ca.Untold h.store → log ≠ []
  served : ∃ s, h'.store.find? .secret leaf.secret = some s
    ∧ LeafStage.mismatch? ⟨leaf.secret, leaf.policy, leafRequest leaf, none⟩ s ca = none

theorem quietly_issue (r : LeafStage) (ca : Authority) (ho : h.Orderly q) :
  (r.issue ca).Quietly q
    (fun issued h' => h.Rests q h' ∧ ∃ now seed,
      ca.sign r.request now r.policy.lifetime (KeyPair.generate seed) = .ok issued)
    (fun e _ => ¬ e.IsRefusal) h
  := by
  apply Procedure.safe_bind
  apply Procedure.quietly_clock ho
  intro h₁ hrests₁ ho₁
  apply Procedure.safe_bind
  apply Procedure.safe_ofComputation
  · intro _ _
    apply Procedure.safe_bind
    apply Procedure.quietly_newKey ho₁
    intro h₂ seed hrests₂ _
    apply Procedure.safe_ofComputation
    · intro issued hsign
      exact ⟨hrests₁.trans hrests₂, _, seed, hsign⟩
    · exact (Authority.faultsOnly_sign _ _ _ _ _).unrefused
  · exact (Authority.faultsOnly_prepare _ _ _ _).unrefused

theorem quietly_rotateLeaf {r : LeafStage} {rest : List TrustedCertificate} (ho : h.Orderly q)
    (hlive : h.store.find? .secret r.ref = some copy)
    (hcarries : copy.annotationAt? AnnotationKey.policy = some r.policy.fingerprint)
    (hgenuine : ∀ cert ∈ ca.trusted :: rest, cert.Genuine) (reason : LeafStage.Reason) :
  (r.rotate copy ca (ca.trusted :: rest) reason).Quietly q
    (fun _ h' => ∃ after, copy.Rotated r.policy after ∧ after.IsAt r.ref
      ∧ h'.store.find? .secret r.ref = some after ∧ r.mismatch? after ca = none
      ∧ h.Extends (History.only .secret r.ref) [⟨.secret, some copy, after⟩] h')
    (fun e _ => ¬ e.IsRefusal) h
  := by
  apply Procedure.Quietly.bind ho (quietly_issue r ca ho)
  rintro issued h₁ ho₁ ⟨hrests₁, now, seed, hsign⟩
  have hlive₁ : h₁.store.find? .secret r.ref = some copy := by rw [hrests₁.store, hlive]
  have hname : (r.filled copy ca (ca.trusted :: rest) issued).name = r.ref.name :=
    LeafStage.name_filled.trans (ho.named hlive)
  apply Procedure.safe_bind
  apply Procedure.quietly_store ho₁ hname hlive₁ LeafStage.version_filled.symm
  intro h₂ h₃ hrests₂ hw
  apply Procedure.quietly_publish ((ho₁.rests hrests₂).wrote hw)
  intro h₄ hrests₄
  refine ⟨_, Secret.rotated_filled hcarries hsign _ _, hw.isAt, ?_, ?_, ?_⟩
  · rw [hrests₄.store, hw.find?_self]
  · rw [LeafStage.mismatch?_stamped, LeafStage.mismatch?_filled hsign hgenuine]
  · apply (hw.extends_of_rests (hrests₁.trans hrests₂) hlive).rests hrests₄

/-- The leaf certificate of a secret that was opened is kept or replaced. -/
theorem quietly_ensureLeaf {rest : List TrustedCertificate} (ho : h'.Orderly q)
    (hopened : Opened q leaf.secret leaf.policy h copy log h')
    (hgenuine : ∀ cert ∈ ca.trusted :: rest, cert.Genuine) :
  (LeafStage.ensure ⟨leaf.secret, leaf.policy, leafRequest leaf, some copy⟩ ca
      (ca.trusted :: rest)).Quietly q
    (fun _ h' => ∃ log, LeafCommits q leaf ca h log h') (fun e _ => ¬ e.IsRefusal) h'
  := by
  rw [LeafStage.ensure_eq rfl]
  apply Procedure.safe_bind
  apply Procedure.quietly_clock ho
  intro h₂ hrests₂ ho₂
  have hopens := hopened.appends.rests hrests₂
  have hlive₂ : h₂.store.find? .secret leaf.secret = some copy := by rw [hrests₂.store, hopened.live]
  apply Procedure.safe_bind
  apply Procedure.safe_ofComputation
  · intro found hfound
    cases found with
    | none =>
      obtain ⟨hmismatch, hdue⟩ := LeafStage.of_reason?_eq_none hfound
      apply Procedure.safe_pure
      refine ⟨log, hopens, ?_, ?_, copy, hlive₂, hmismatch⟩
      · intro hproper
        rw [hopened.eq_nil hproper hrests₂.clock hdue]
        apply SecretSegment.kept
      · -- A leaf that serves was told to trust the authority first.
        intro huntold
        obtain ⟨-, ⟨first, hfirst, hpem⟩, -⟩ := LeafStage.of_mismatch?_eq_none hmismatch
        obtain ⟨s, hs, hpublished⟩ := hopened.opening.exists_published hfirst
        exact absurd hpem (huntold _ s first hs hpublished)
    | some reason =>
      have hcarries := hopened.opening.carries
      apply Procedure.safe_mono (quietly_rotateLeaf
        (r := ⟨leaf.secret, leaf.policy, leafRequest leaf, some copy⟩) ho₂ hlive₂ hcarries hgenuine reason)
      rintro _ h₃ ⟨after, hrotated, hat, hfind, hserved, hextends⟩
      have hsegment := hopened.opening.rotated hrotated hat
      exact ⟨_, hopens.trans hextends, fun _ => hsegment, fun _ => List.concat_ne_nil _ _, after, hfind,
        hserved⟩
  · exact (LeafStage.faultsOnly_reason? _ _ _ _).unrefused

/-- A leaf stage commits a segment. -/
theorem quietly_leafStage {rest : List TrustedCertificate} (ho : h.Orderly q)
    (hwatched : q.watched.contains leaf.secret.ns)
    (hgenuine : ∀ cert ∈ ca.trusted :: rest, cert.Genuine) :
  (leafStage q.watched leaf ca (ca.trusted :: rest)).Quietly q
    (fun _ h' => ∃ log, LeafCommits q leaf ca h log h') (fun e _ => ¬ e.IsRefusal) h
  := by
  apply Procedure.Quietly.bind ho (quietly_prepareSecret ho hwatched leaf.policy)
  rintro copy h₁ ho₁ ⟨log, hopened⟩
  apply quietly_ensureLeaf ho₁ hopened hgenuine

/-! ### Passes -/

/-- What a pass commits for a definition, stage by stage. -/
structure PassLog where
  signer : List Commit
  bundle : List Commit
  leaf : List Commit

/-- All commits for a definition. -/
def PassLog.all (l : PassLog) : List Commit := l.signer ++ l.bundle ++ l.leaf

/-- The commits for a definition are segments of the stages that it asks for. If the signer was written,
so were the objects of the other stages. -/
def PassLog.Fits (d : Definition) (l : PassLog) : Prop :=
  SecretSegment d.signer d.signerPolicy l.signer ∧ ∃ kept, d.stages = .ok kept ∧
    match kept with
    | .signer => l.bundle = [] ∧ l.leaf = []
    | .signerAndBundle bundle =>
      BundleSegment bundle l.bundle ∧ l.leaf = [] ∧ (l.signer ≠ [] → l.bundle ≠ [])
    | .full bundle leaf =>
      BundleSegment bundle l.bundle ∧ SecretSegment leaf.secret leaf.policy l.leaf
        ∧ (l.signer ≠ [] → l.bundle ≠ [] ∧ l.leaf ≠ [])

/-- The live leaf of a plan serves for some authority. -/
def LeafServes (p : Plan) (s : Store) : Prop :=
  match p.2 with
  | .full _ leaf => ∃ live ca, s.find? .secret leaf.secret = some live
      ∧ LeafStage.mismatch? ⟨leaf.secret, leaf.policy, leafRequest leaf, none⟩ live ca = none
  | _ => True

/-- Writing a bundle tells no leaf whom to trust. -/
theorem BundleCommits.untold {certs : List TrustedCertificate}
    (hb : BundleCommits bundle ca h certs log h') (huntold : ca.Untold h.store) :
  ca.Untold h'.store
  := by
  intro ref o first hfind hfirst
  rw [hb.appends.others (fun hplace => by cases hplace.1)] at hfind
  apply huntold ref o first hfind hfirst

/-- The stages of a definition commit their segments. -/
theorem quietly_planStages {p : Plan} (ho : h.Orderly q) (hstages : p.1.stages = .ok p.2)
    (hwatched : ∀ ns ∈ p.1.namespaces, q.watched.contains ns) :
  (planStages q.watched p).Quietly q
    (fun _ h' => ∃ l : PassLog, (q.Proper → l.Fits p.1) ∧ h.Extends p.1.Names l.all h'
      ∧ LeafServes p h'.store)
    (fun e _ => ¬ e.IsRefusal) h
  := by
  obtain ⟨d, kept⟩ := p
  have hin : ∀ {k ref}, d.Names k ref → q.watched.contains ref.ns :=
    fun hnames => hwatched _ hnames.mem_namespaces
  have hnamed : ∀ {k ref k' ref'}, d.Names k ref → History.only k ref k' ref' → d.Names k' ref' := by
    rintro k ref _ _ hnames ⟨rfl, rfl⟩
    apply hnames
  apply Procedure.Quietly.bind ho (quietly_signerStage ho (hin .signer))
  rintro ca h₁ ho₁ ⟨signer, hs⟩
  have hwrites := hs.appends.mono (fun _ _ => hnamed .signer)
  cases kept with
  | signer =>
    apply Procedure.safe_pure
    refine ⟨⟨signer, [], []⟩, ?_, ?_, trivial⟩
    · intro hproper
      exact ⟨hs.segment hproper, _, hstages, rfl, rfl⟩
    · simpa [PassLog.all] using hwrites
  | signerAndBundle bundle =>
    have hnames : d.Names .configMap bundle := .bundle (Definition.of_stages hstages).1
    apply Procedure.Quietly.bind ho₁ (quietly_bundleStage hs.loaded ho₁ (hin hnames))
    rintro certs h₂ _ ⟨log, hb⟩
    apply Procedure.safe_pure
    refine ⟨⟨signer, log, []⟩, ?_, ?_, trivial⟩
    · intro hproper
      refine ⟨hs.segment hproper, _, hstages, hb.segment, rfl, ?_⟩
      intro hne
      apply hb.answers (hs.unlisted hproper hne)
    · simpa [PassLog.all] using hwrites.trans (hb.appends.mono (fun _ _ => hnamed hnames))
  | full bundle leaf =>
    have hnames : d.Names .configMap bundle := .bundle (Definition.of_stages hstages).1
    have hleaf : d.Names .secret leaf.secret := .of_stages hstages
    apply Procedure.Quietly.bind ho₁ (quietly_bundleStage hs.loaded ho₁ (hin hnames))
    rintro certs h₂ ho₂ ⟨log, hb⟩
    obtain ⟨rest, rfl, hgenuine⟩ := hb.first
    apply Procedure.safe_mono (quietly_leafStage ho₂ (hin hleaf) hgenuine)
    rintro _ h₃ ⟨log', hl⟩
    obtain ⟨live, hlive, hserves⟩ := hl.served
    refine ⟨⟨signer, log, log'⟩, ?_, ?_, live, ca, hlive, hserves⟩
    · intro hproper
      refine ⟨hs.segment hproper, _, hstages, hb.segment, hl.segment hproper, ?_⟩
      intro hne
      have hunlisted := hs.unlisted hproper hne
      exact ⟨hb.answers hunlisted, hl.answers (hb.untold hunlisted.untold)⟩
    · have hlater := hb.appends.mono (fun _ _ => hnamed hnames)
      apply (hwrites.trans hlater).trans (hl.appends.mono (fun _ _ => hnamed hleaf))

/-- A pass that goes through commits the segments of one definition after the other. -/
theorem quietly_sync {definitions : List Definition} (hproper : q.Proper) (ho : h.Orderly q) :
  (sync q.watched definitions).Quietly q
    (fun _ h' => ∃ logs, List.Forall₂ PassLog.Fits definitions logs
      ∧ h'.commits = h.commits ++ logs.flatMap PassLog.all)
    (fun _ _ => True) h
  := by
  rw [sync_eq]
  apply Procedure.safe_bind
  apply Procedure.safe_ofResult
  · intro plans hplans
    have hall : (plans.forM (planStages q.watched)).Quietly q
        (fun _ h' => ∃ logs, List.Forall₂ (fun p => PassLog.Fits p.1) plans logs
          ∧ h.Extends (fun _ _ => True) (logs.flatMap PassLog.all) h')
        (fun _ _ => True) h := by
      apply Procedure.quietly_forM ho
      intro p hp h₁ ho₁
      obtain ⟨-, hstages, hwatched⟩ := mem_of_preflight hplans hp
      apply Procedure.safe_weaken (quietly_planStages ho₁ hstages hwatched)
      · rintro _ h₂ ⟨l, hfits, hextends, -⟩
        exact ⟨l, hfits hproper, hextends.mono (fun _ _ _ => trivial)⟩
      · intro e h₂ _
        trivial
    apply Procedure.safe_mono hall
    rintro _ h' ⟨logs, hfits, hextends⟩
    refine ⟨logs, ?_, hextends.commits⟩
    rw [← map_fst_of_preflight hplans, List.forall₂_map_left_iff]
    apply hfits
  · intro e _
    trivial

/-- A pass in quiet surroundings that goes through writes, for one definition after the other, a segment
of the signer stage, one of the bundle stage and one of the leaf stage, and nothing else. This needs that
the times have time stamps and that new keys make certificates which are not stored yet. -/
theorem sync_writes_segments {definitions : List Definition} (hproper : q.Proper) (ho : h.Orderly q) :
  (sync q.watched definitions).Quietly q
    (fun _ h' => ∃ logs, List.Forall₂ PassLog.Fits definitions logs
      ∧ h'.commits = h.commits ++ logs.flatMap PassLog.all
      ∧ h'.store.writes = h.store.writes ++ (logs.flatMap PassLog.all).map Commit.write)
    (fun _ _ => True) h
  := by
  have htallies : (sync q.watched definitions).run.Safe (History.quiet q) h.Tallies
      (fun _ h' => h.Tallies h') h :=
    Program.safe_of_step (fun ht hquiet => ht.quiet hquiet) _ (.refl h)
  apply Procedure.safe_iff.mpr
  apply Program.Safe.mono ((Procedure.safe_iff.mp (quietly_sync hproper ho)).and htallies)
  rintro (e | _) h' ⟨hended, log, htally, hwrites⟩
  · trivial
  · obtain ⟨logs, hfits, hcommits⟩ := hended
    obtain rfl : log = logs.flatMap PassLog.all := List.append_cancel_left (htally.symm.trans hcommits)
    exact ⟨logs, hfits, hcommits, hwrites⟩

/-- A pass over the sample definitions in an empty store, where any key is a new one. -/
theorem sync_writes_segments_of_empty :
  ∃ (q : Quiet) (h : History), q.Proper ∧ h.Orderly q ∧ (∀ key, q.makes h.store key)
    ∧ (sync q.watched (Definition.sample "pki" "api")).Quietly q
      (fun _ h' => ∃ logs, List.Forall₂ PassLog.Fits (Definition.sample "pki" "api") logs
        ∧ h'.commits = h.commits ++ logs.flatMap PassLog.all
        ∧ h'.store.writes = h.store.writes ++ (logs.flatMap PassLog.all).map Commit.write)
      (fun _ _ => True) h
  := by
  let q : Quiet := ⟨NameSet.ofNames ["pki"], Instant.Civil, fun s key => key.NewIn s⟩
  let h := History.start (Store.new ["pki"]) (Instant.ofSeconds 0)
  have hproper : q.Proper := ⟨fun _ ht => ht, fun _ _ hkey => hkey⟩
  have hnone : ∀ k ref, h.store.find? k ref = none := Store.find?_new ["pki"]
  have ho : h.Orderly q := by
    constructor
    · intro hleap
      cases hleap
    · intro k ref o ho
      cases (hnone k ref).symm.trans ho
  refine ⟨q, h, hproper, ho, ?_, sync_writes_segments hproper ho⟩
  rintro key commonName v ca - ⟨text, certs, cert, htext, -⟩
  cases htext with
  | secret hfind _ => cases (hnone _ _).symm.trans hfind
  | configMap hfind _ => cases (hnone _ _).symm.trans hfind

end CertKeeper.Manager
