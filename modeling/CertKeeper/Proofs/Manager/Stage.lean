import CertKeeper.Proofs.Cluster.Call
import CertKeeper.Proofs.Manager.Pass
import CertKeeper.Proofs.Rotation.Leaf
import CertKeeper.Proofs.Rotation.Signer

/-!
# Stages among other writers

What a stage does to its secret follows one pattern: the secret is prepared, and then its key pair is
kept or replaced. The lemmas of this module go through the stages once, for any invariant that the
writes of a stage keep. `SecretUpkeep` lists what the preparation needs, `SignerUpkeep` and
`LeafUpkeep` what the two kinds of stages need beyond that. A signer stage ends with an authority that
a version of its secret has (`SignerUpkeep.signerStage`).
-/

namespace CertKeeper.Manager

/-- A version of an object at its place. -/
def IsVersion {k : Kind} (ref : ResourceRef) (o : Object k) (h : History) : Prop :=
  (⟨k, o⟩ : Sigma Object) ∈ h.past ∧ o.IsAt ref

theorem IsVersion.later {k : Kind} {ref : ResourceRef} {o : Object k} {h h' : History}
    (ho : IsVersion ref o h) (hlater : h.Later h') :
  IsVersion ref o h'
  := ⟨hlater.past _ ho.1, ho.2⟩

/-- The version of a copy is the live one. -/
def Replaces (ref : ResourceRef) (copy : Secret) (h : History) : Prop :=
  ∃ live, h.store.find? .secret ref = some live ∧ live.version = copy.version

/-- A copy of a secret on which a policy is recorded. -/
structure Readied (ref : ResourceRef) (policy : Policy) (copy : Secret) (h : History) : Prop where
  version : IsVersion ref copy h
  policy : copy.annotationAt? AnnotationKey.policy = some policy.fingerprint

theorem Readied.later {ref : ResourceRef} {policy : Policy} {copy : Secret} {h h' : History}
    (hcopy : Readied ref policy copy h) (hlater : h.Later h') :
  Readied ref policy copy h'
  := ⟨hcopy.version.later hlater, hcopy.policy⟩

/-- A version of a secret has an authority. -/
def Held (ref : ResourceRef) (ca : Authority) (h : History) : Prop :=
  ∃ s : Secret, IsVersion ref s h ∧ s.authority = .ok ca

theorem Held.later {ref : ResourceRef} {ca : Authority} {h h' : History} (hca : Held ref ca h)
    (hlater : h.Later h') :
  Held ref ca h'
  := by
  obtain ⟨s, hs, hauthority⟩ := hca
  exact ⟨s, hs.later hlater, hauthority⟩

theorem Held.loaded {ref : ResourceRef} {ca : Authority} {h : History} (hca : Held ref ca h) :
  ca.Loaded
  := by
  obtain ⟨s, -, hauthority⟩ := hca
  apply Secret.loaded_of_authority hauthority

/-- Where the authority of a signer stage is from: a copy of the secret was kept as it was at a time
that the clock has shown, or a new authority was stored. -/
inductive Obtained (shows : Instant → Prop) (ref : ResourceRef) (policy : Policy) (ca : Authority)
    (h : History) : Prop where
  | kept {copy : Secret} {now : Instant} : Readied ref policy copy h → shows now →
      copy.authority = .ok ca → copy.metadata.due? policy.refresh now = .ok none →
      Obtained shows ref policy ca h
  | made {commonName : String} {now issued : Instant} {v : Validity} {seed : Nat} : Held ref ca h →
      shows now → ¬ issued.before now → Validity.starting issued policy.lifetime = .ok v →
      Authority.generate commonName v (KeyPair.generate seed) = .ok ca → Obtained shows ref policy ca h

/-- Wherever an authority is from, a version of the secret has it. -/
theorem Obtained.held {shows : Instant → Prop} {ref : ResourceRef} {policy : Policy} {ca : Authority}
    {h : History} (hca : Obtained shows ref policy ca h) :
  Held ref ca h
  := by
  cases hca with
  | kept hcopy _ hauthority _ => exact ⟨_, hcopy.version, hauthority⟩
  | made hheld _ _ _ _ => apply hheld

/-- A secret that the preparation of a stage stores in the place of the live one. -/
inductive Preparation (shows : Instant → Prop) (h : History) (ref : ResourceRef) : Secret → Prop where
  | created : h.store.find? .secret ref = none →
      Preparation shows h ref ⟨{ name := ref.name }, {}⟩
  | recorded {copy updated : Secret} {policy : Policy} {now : Instant} :
      IsVersion ref copy h → Replaces ref copy h → shows now → ¬ h.clock.before now →
      copy.withFingerprint? policy.fingerprint now = some updated →
      Preparation shows h ref updated

/-- Preparing a secret leaves what the secret holds. -/
theorem Preparation.content_eq {places : Kind → ResourceRef → Prop} {shows : Instant → Prop}
    {ref : ResourceRef} {h : History} {s : Secret} (hs : Preparation shows h ref s)
    (hcoherent : h.Coherent places) (hplace : places .secret ref) :
  s.content = (h.store.find? .secret ref).elim {} Object.content
  := by
  cases hs with
  | created hnone =>
    rw [hnone]
    rfl
  | recorded hcopy hreplaces _ _ hrecord =>
    obtain ⟨live, hlive, hversion⟩ := hreplaces
    obtain rfl := hcoherent.eq_of_version hplace hcopy.2 hcopy.1 hlive hversion
    rw [hlive]
    apply (Secret.withFingerprint?_eq_some hrecord).2.1

/-- Preparing a secret leaves the entries of the secret. -/
theorem Preparation.text?_eq {places : Kind → ResourceRef → Prop} {shows : Instant → Prop}
    {ref : ResourceRef} {h : History} {s : Secret} (hs : Preparation shows h ref s)
    (hcoherent : h.Coherent places) (hplace : places .secret ref) (key : String) :
  s.text? key = (h.store.find? .secret ref).bind (fun live => Secret.text? live key)
  := by
  have hcontent := hs.content_eq hcoherent hplace
  cases hlive : h.store.find? .secret ref with
  | none =>
    rw [hlive] at hcontent
    rw [Secret.text?, Secret.bytes?, hcontent]
    rfl
  | some live =>
    rw [hlive] at hcontent
    apply Secret.text?_of_content hcontent

/-- What is prepared while the clock shows some times is prepared while it may show more. -/
theorem Preparation.mono {shows shows' : Instant → Prop} {ref : ResourceRef} {h : History}
    {s : Secret} (hs : Preparation shows h ref s) (hshows : ∀ {now}, shows now → shows' now) :
  Preparation shows' h ref s
  := by
  cases hs with
  | created hnone => apply Preparation.created hnone
  | recorded hcopy hreplaces hnow hlater hrecord =>
    apply Preparation.recorded hcopy hreplaces (hshows hnow) hlater hrecord

/-- An invariant that the preparation of a secret can rely on and that its writes keep. -/
structure SecretUpkeep (outside : Outside) (keep : History → Prop) (ref : ResourceRef) : Prop where
  steady : Procedure.Steady outside keep
  shown : ∀ {h}, keep h → outside.shows h.clock
  coherent : ∀ {h}, keep h → h.Coherent outside.follows
  follows : outside.follows .secret ref
  prepared : ∀ {h h'} {s : Secret}, keep h → Preparation outside.shows h ref s → h.Wrote ref s h' →
    keep h'

/-- An invariant that a signer stage can rely on and that its writes keep. -/
structure SignerUpkeep (outside : Outside) (keep : History → Prop) (ref : ResourceRef)
    (policy : Policy) : Prop extends SecretUpkeep outside keep ref where
  signed : ∀ {h h' : History} {copy : Secret} {known : Option Secret} {now issued : Instant}
      {v : Validity} {seed : Nat} {ca : Authority}, keep h →
    Readied ref policy copy h → (copy.version.isSome → Replaces ref copy h) →
    outside.shows now → ¬ issued.before now → Validity.starting issued policy.lifetime = .ok v →
    Authority.generate (SignerRequest.commonName ⟨ref, policy, known⟩ now) v (KeyPair.generate seed)
      = .ok ca →
    h.Wrote ref (copy.withKeyPair ca.certPem ca.keyPem ca.info) h' → keep h'

/-- An invariant that a leaf stage with trusted certificates can rely on and that its writes keep. -/
structure LeafUpkeep (outside : Outside) (keep : History → Prop) (r : LeafStage) (ca : Authority)
    (trusted : List TrustedCertificate) : Prop extends SecretUpkeep outside keep r.ref where
  filled : ∀ {h h' : History} {copy : Secret} {now : Instant} {seed : Nat} {issued : IssuedCertificate},
    keep h → Readied r.ref r.policy copy h → (copy.version.isSome → Replaces r.ref copy h) →
    outside.shows now → ca.sign r.request now r.policy.lifetime (KeyPair.generate seed) = .ok issued →
    h.Wrote r.ref (r.filled copy ca trusted issued) h' → keep h'

/-- A procedure keeps an invariant, and ends with `ok` if it has a result. -/
abbrev Works {α : Type} (outside : Outside) (keep : History → Prop) (p : Procedure α)
    (ok : α → History → Prop) (h : History) : Prop :=
  p.Safe (History.step outside) keep ok (fun _ _ => True) h

variable {outside : Outside} {keep : History → Prop} {watched : NameSet} {h : History}
variable {ref : ResourceRef} {policy : Policy} {ca : Authority}

theorem Works.imp {α : Type} {p : Procedure α} {ok ok' : α → History → Prop} (hk : keep h)
    (hp : Works outside keep p ok h)
    (hok : ∀ {a h'}, h.Later h' → keep h' → ok a h' → ok' a h') :
  Works outside keep p ok' h
  := by
  apply Procedure.safe_imp hk hp
  · intro a h' hlater hk' ha
    apply hok hlater hk' ha
  · intro e h' _ _ _
    trivial

namespace SecretUpkeep

/-- What stays known can be made part of the invariant. -/
theorem and {known : History → Prop} (hu : SecretUpkeep outside keep ref)
    (hknown : ∀ {h h'}, known h → h.Later h' → known h') :
  SecretUpkeep outside (fun h => keep h ∧ known h) ref
  := by
  constructor
  · intro h h' hk hd
    exact ⟨hu.steady hk.1 hd, hknown hk.2 hd.later⟩
  · intro h hk
    apply hu.shown hk.1
  · intro h hk
    apply hu.coherent hk.1
  · apply hu.follows
  · intro h h' s hk hs hw
    exact ⟨hu.prepared hk.1 hs hw, hknown hk.2 hw.later⟩

theorem isVersion (hu : SecretUpkeep outside keep ref) (hk : keep h) {s : Secret}
    (hfind : h.store.find? .secret ref = some s) :
  IsVersion ref s h
  := by
  obtain ⟨hat, hmem⟩ := (hu.coherent hk).live hu.follows hfind
  exact ⟨hmem, hat⟩

theorem ensureSecret (hu : SecretUpkeep outside keep ref) (hk : keep h) :
  Works outside keep (ensureSecret ref) (IsVersion ref) h
  := by
  apply Procedure.safe_bind
  apply Procedure.safe_cached hu.steady hk hu.follows
  · intro h₁ s hd₁ hk₁ hmem hat
    apply Procedure.safe_pure
    exact ⟨hmem, hat⟩
  · intro h₁ hd₁ hk₁
    apply Procedure.safe_bind
    apply Procedure.safe_askCreate hu.steady hk₁ rfl
    · intro h₂ h₃ hd₂ hk₂ hnone hw
      constructor
      · apply hu.prepared hk₂ (.created hnone) hw
      · apply Procedure.safe_pure
        exact ⟨hw.mem_past, hw.isAt⟩
    · intro h₂ e hd₂ hk₂
      dsimp only
      split
      · apply Procedure.safe_get hu.steady hk₂
        · intro h₃ s hd₃ hk₃ hfind
          apply hu.isVersion hk₃ hfind
        · intro h₃ e' hd₃ hk₃
          trivial
      · apply Procedure.safe_fail
        trivial

theorem ensurePolicy (hu : SecretUpkeep outside keep ref) {copy : Secret} (policy : Policy)
    (hcopy : IsVersion ref copy h) (hk : keep h) :
  Works outside keep (ensurePolicy copy ref policy) (Readied ref policy) h
  := by
  apply Procedure.safe_bind
  apply Procedure.safe_clock hu.steady hk
  intro h₁ hd₁ hk₁
  cases hrecord : copy.withFingerprint? policy.fingerprint h₁.clock with
  | none =>
    apply Procedure.safe_pure
    exact ⟨hcopy.later hd₁.later, (Secret.withFingerprint?_eq_none _ _).mp hrecord⟩
  | some updated =>
    obtain ⟨hpolicy, -, hname, hversion, -⟩ := Secret.withFingerprint?_eq_some hrecord
    apply Procedure.safe_update hu.steady hk₁ (hname.trans hcopy.2.2)
    · intro h₂ h₃ live hd₂ hk₂ hlive hsame hw
      constructor
      · apply hu.prepared hk₂ _ hw
        apply Preparation.recorded (hcopy.later (hd₁.later.trans hd₂.later))
          ⟨live, hlive, hsame.trans hversion⟩ (hu.shown hk₁) hd₂.later.clock hrecord
      · exact ⟨⟨hw.mem_past, hw.isAt⟩, hpolicy⟩
    · intro h₂ e hd₂ hk₂
      trivial

/-- A secret that has been prepared is a version of the secret with the policy. -/
theorem prepareSecret (hu : SecretUpkeep outside keep ref) (policy : Policy) (hk : keep h) :
  Works outside keep (prepareSecret watched ref policy) (Readied ref policy) h
  := by
  apply Procedure.safe_bind
  apply Procedure.safe_ofResult
  · intro _ _
    apply Procedure.safe_bind
    apply Works.imp hk (hu.ensureSecret hk)
    intro copy h₁ _ hk₁ hcopy
    apply hu.ensurePolicy policy hcopy hk₁
  · intro e _
    trivial

end SecretUpkeep

namespace SignerUpkeep

/-- A new signer is handed on once it has been stored. -/
theorem rotate {known : Option Secret} (hu : SignerUpkeep outside keep ref policy) {copy : Secret}
    (hcopy : Readied ref policy copy h) {now : Instant} (hnow : outside.shows now)
    (hlater : ¬ h.clock.before now) (reason : SignerRequest.Reason) (hk : keep h) :
  Works outside keep (SignerRequest.rotate ⟨ref, policy, known⟩ copy now reason)
    (Obtained outside.shows ref policy) h
  := by
  apply Procedure.safe_bind
  apply Procedure.safe_clock hu.steady hk
  intro h₁ hd₁ hk₁
  apply Procedure.safe_bind
  apply Procedure.safe_ofComputation
  · intro v hv
    apply Procedure.safe_bind
    apply Procedure.safe_newKey hu.steady hk₁
    intro h₂ seed hd₂ hk₂
    apply Procedure.safe_bind
    apply Procedure.safe_ofResult
    · intro ca hca
      have hreadied := hcopy.later (hd₁.later.trans hd₂.later)
      have hname : (copy.withKeyPair ca.certPem ca.keyPem ca.info).name = ref.name :=
        hcopy.version.2.2
      apply Procedure.safe_bind
      apply Procedure.safe_store hu.steady hk₂ hname
      · intro h₃ h₄ hd₃ hk₃ hover hw
        have hissued := Instant.not_before_trans hd₁.later.clock hlater
        have hk₄ : keep h₄ := hu.signed hk₃ (hreadied.later hd₃.later) hover hnow hissued hv hca hw
        constructor
        · apply hk₄
        · apply Procedure.safe_bind
          apply Procedure.safe_publish hu.steady hk₄
          intro h₅ hd₅ _
          apply Procedure.safe_pure
          have hversion : IsVersion ref
              (h₃.store.stamped ref.ns (copy.withKeyPair ca.certPem ca.keyPem ca.info)) h₄ :=
            ⟨hw.mem_past, hw.isAt⟩
          apply Obtained.made _ hnow hissued hv hca
          refine ⟨_, hversion.later hd₅.later, ?_⟩
          rw [Secret.authority_of_content (Object.content_stamped _ _ _)]
          apply Secret.authority_withKeyPair (Authority.generate_eq_ok hv hca).1.loaded
      · intro h₃ e hd₃ hk₃
        trivial
    · intro e _
      trivial
  · intro e _
    trivial

/-- The signer stage ends with an authority that was kept or is new. -/
theorem obtains {d : Definition} (hu : SignerUpkeep outside keep d.signer d.signerPolicy)
    (hk : keep h) :
  Works outside keep (Manager.signerStage watched d) (Obtained outside.shows d.signer d.signerPolicy) h
  := by
  apply Procedure.safe_bind
  apply Works.imp hk (hu.prepareSecret d.signerPolicy hk)
  intro copy h₁ _ hk₁ hcopy
  rw [SignerRequest.ensure_eq rfl]
  apply Procedure.safe_bind
  apply Procedure.safe_clock hu.steady hk₁
  intro h₂ hd₂ hk₂
  have hreadied := hcopy.later hd₂.later
  apply Procedure.safe_bind
  apply Procedure.safe_ofComputation
  · intro checked hchecked
    cases checked with
    | ok ca =>
      apply Procedure.safe_pure
      obtain ⟨hauthority, hdue⟩ := SignerRequest.check_eq_ok_ok.mp hchecked
      exact .kept hreadied (hu.shown hk₂) hauthority hdue
    | error reason => apply hu.rotate hreadied (hu.shown hk₂) (by simp) reason hk₂
  · intro e _
    trivial

/-- The signer stage ends with an authority that a version of its secret has. -/
theorem signerStage {d : Definition} (hu : SignerUpkeep outside keep d.signer d.signerPolicy)
    (hk : keep h) :
  Works outside keep (signerStage watched d) (Held d.signer) h
  := by
  apply Works.imp hk (hu.obtains hk)
  intro ca h₁ _ _ hca
  apply hca.held

end SignerUpkeep

namespace LeafUpkeep

variable {r : LeafStage} {trusted : List TrustedCertificate}

/-- A certificate that has been issued was signed for the request with a new key, at a time that the
clock has shown. -/
theorem issue (hu : LeafUpkeep outside keep r ca trusted) (hk : keep h) :
  Works outside keep (r.issue ca) (fun issued _ => ∃ now seed, outside.shows now
    ∧ ca.sign r.request now r.policy.lifetime (KeyPair.generate seed) = .ok issued) h
  := by
  apply Procedure.safe_bind
  apply Procedure.safe_clock hu.steady hk
  intro h₁ hd₁ hk₁
  apply Procedure.safe_bind
  apply Procedure.safe_ofComputation
  · intro _ _
    apply Procedure.safe_bind
    apply Procedure.safe_newKey hu.steady hk₁
    intro h₂ seed hd₂ hk₂
    apply Procedure.safe_ofComputation
    · intro issued hsign
      exact ⟨h₁.clock, seed, hu.shown hk₁, hsign⟩
    · intro e _
      trivial
  · intro e _
    trivial

theorem rotate (hu : LeafUpkeep outside keep r ca trusted) {copy : Secret}
    (hcopy : Readied r.ref r.policy copy h) (reason : LeafStage.Reason) (hk : keep h) :
  Works outside keep (r.rotate copy ca trusted reason) (fun _ _ => True) h
  := by
  apply Procedure.safe_bind
  apply Works.imp hk (hu.issue hk)
  rintro issued h₁ hlater₁ hk₁ ⟨now, seed, hnow, hsign⟩
  have hname : (r.filled copy ca trusted issued).name = r.ref.name :=
    LeafStage.name_filled.trans hcopy.version.2.2
  apply Procedure.safe_bind
  apply Procedure.safe_store hu.steady hk₁ hname
  · intro h₂ h₃ hd₂ hk₂ hover hw
    rw [LeafStage.version_filled] at hover
    have hk₃ : keep h₃ := hu.filled hk₂ (hcopy.later (hlater₁.trans hd₂.later)) hover hnow hsign hw
    constructor
    · apply hk₃
    · apply Procedure.safe_publish hu.steady hk₃
      intro h₄ _ _
      trivial
  · intro h₂ e hd₂ hk₂
    trivial

theorem leafStage {leaf : Leaf}
    (hu : ∀ known, LeafUpkeep outside keep ⟨leaf.secret, leaf.policy, leafRequest leaf, known⟩ ca trusted)
    (hk : keep h) :
  Works outside keep (leafStage watched leaf ca trusted) (fun _ _ => True) h
  := by
  apply Procedure.safe_bind
  apply Works.imp hk ((hu none).prepareSecret leaf.policy hk)
  intro copy h₁ _ hk₁ hcopy
  rw [LeafStage.ensure_eq rfl]
  apply Procedure.safe_bind
  apply Procedure.safe_clock (hu none).steady hk₁
  intro h₂ hd₂ hk₂
  apply Procedure.safe_bind
  apply Procedure.safe_ofComputation
  · intro found _
    cases found with
    | none =>
      apply Procedure.safe_pure
      trivial
    | some reason =>
      have hreadied := hcopy.later hd₂.later
      apply (hu (some copy)).rotate hreadied reason hk₂
  · intro e _
    trivial

end LeafUpkeep

end CertKeeper.Manager
