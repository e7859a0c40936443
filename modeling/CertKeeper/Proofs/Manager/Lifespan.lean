import CertKeeper.Proofs.Manager.PolicyChange
import CertKeeper.Proofs.Manager.StoredAuthority

/-!
# Leaves within the lifetime of their authority

Nothing compares the lifetime of a leaf with that of its signer. Still a leaf that is to live for at
most a fifth of its signer's lifetime does not outlive the authority that signs it, as long as the
clock stands still during a pass (`Manager.leaf_within_authority`). A signer is due as soon as a fifth
of its validity is left, and the validity of a signer that is kept is the lifetime of the present
policy, since a signer with another one is due for it (`Secret.Faithful.leavesFifth`).
-/

namespace CertKeeper

/-- A fifth of a lifetime is left of the validity of an authority. -/
def Authority.LeavesFifth (ca : Authority) (lifetime : Duration) (now : Instant) : Prop :=
  ∃ stop : Int, ca.info.notAfter = .ofSeconds stop ∧ now.seconds + (lifetime.seconds / 5 : Nat) ≤ stop

namespace Authority.LeavesFifth

variable {ca : Authority} {lifetime : Duration} {now : Instant}

/-- A leaf that lives for at most a fifth of the lifetime does not outlive the authority. -/
theorem not_before_of_sign {request : LeafRequest} {leafLifetime : Duration} {seed : Nat}
    {issued : IssuedCertificate} (hca : ca.LeavesFifth lifetime now)
    (hsign : ca.sign request now leafLifetime (KeyPair.generate seed) = .ok issued)
    (hfifth : leafLifetime.nanos ≤ lifetime.nanos / 5) :
  ¬ ca.info.notAfter.before issued.info.notAfter
  := by
  obtain ⟨stop, hstop, hleft⟩ := hca
  obtain ⟨v, hv, hserves⟩ := Authority.serves_of_sign hsign
  obtain ⟨rfl, -⟩ := Validity.starting_eq_ok hv
  -- Rounding down to seconds keeps the fifth.
  have hseconds : leafLifetime.seconds ≤ lifetime.seconds / 5 := by
    simp only [Duration.seconds, nanosPerSecond]
    omega
  rw [hstop, hserves.notAfter, Instant.before_iff]
  simp only [Instant.ofSeconds]
  omega

/-- All of its lifetime is left of a new authority. -/
theorem of_generate {issued : Instant} {v : Validity} {commonName : String} {seed : Nat}
    (hv : Validity.starting issued lifetime = .ok v)
    (hca : Authority.generate commonName v (KeyPair.generate seed) = .ok ca)
    (hlater : ¬ issued.before now) :
  ca.LeavesFifth lifetime now
  := by
  obtain ⟨-, hinfo⟩ := Authority.generate_eq_ok hv hca
  obtain ⟨rfl, -⟩ := Validity.starting_eq_ok hv
  refine ⟨issued.seconds + lifetime.seconds, by rw [hinfo], ?_⟩
  rw [Instant.before_iff] at hlater
  omega

end Authority.LeavesFifth

/-- A fifth of the lifetime of its policy is left of a signer that is not due. -/
theorem Secret.Faithful.leavesFifth {s : Secret} {policy : Policy} {now : Instant} {ca : Authority}
    (h : s.Faithful Instant.Civil now)
    (hpolicy : s.annotationAt? AnnotationKey.policy = some policy.fingerprint)
    (hauthority : s.authority = .ok ca) (hdue : s.metadata.due? policy.refresh now = .ok none) :
  ca.LeavesFifth policy.lifetime now
  := by
  rcases h.issued_or_due hpolicy with ⟨certPem, info, start, hcert, hparse, hnotBefore, hnotAfter,
    hrecords⟩ | hblank | hoverdue
  · obtain ⟨text, rest, htext, hparse'⟩ := (Secret.holdsAuthority_of_authority hauthority).certificate
    cases hcert.symm.trans htext
    cases hparse.symm.trans hparse'
    rw [hrecords.due?, hnotBefore, hnotAfter] at hdue
    refine ⟨start + policy.lifetime.seconds, hnotAfter, ?_⟩
    apply Validity.fifth_left_of_due? (by omega) hdue
  · have hsome := Secret.certificate_of_authority hauthority
    exact absurd (.inl (Option.isSome_of_isSome_bind hsome)) hblank
  · obtain ⟨reason, hreason⟩ := hoverdue policy.refresh now (by simp)
    cases hdue.symm.trans hreason

namespace Manager

/-- What a pass writes, after the versions that were stored before. A new leaf is within the validity
of the authority that signed it, if it is to live for at most a fifth of the lifetime of its signer. -/
inductive Spanned (definitions : List Definition) (past : List (Sigma Object)) : Commit → Prop where
  /-- A target has a certificate that a stored authority of its signer has just signed. -/
  | leaf {d : Definition} {bundle : ResourceRef} {leaf : Leaf} {ca : Authority}
      {replaced : Option Secret} {s : Secret} {now : Instant} {seed : Nat}
      {issued : IssuedCertificate} : d ∈ definitions → d.stages = .ok (.full bundle leaf) →
      s.IsAt leaf.secret → StoredAt past d.signer ca →
      ca.sign (leafRequest leaf) now leaf.policy.lifetime (KeyPair.generate seed) = .ok issued →
      s.text? EntryKey.certificate = some issued.certPem →
      s.text? EntryKey.privateKey = some issued.keyPem →
      (leaf.policy.lifetime.nanos ≤ d.signerPolicy.lifetime.nanos / 5 →
        ¬ ca.info.notAfter.before issued.info.notAfter) →
      Spanned definitions past ⟨.secret, replaced, s⟩
  /-- A signer has a new authority. -/
  | signer {d : Definition} {ca : Authority} {replaced : Option Secret} {s : Secret}
      {commonName : String} {v : Validity} {seed : Nat} : d ∈ definitions → s.IsAt d.signer →
      Authority.generate commonName v (KeyPair.generate seed) = .ok ca → s.HoldsAuthority ca →
      Spanned definitions past ⟨.secret, replaced, s⟩
  /-- A secret is new and empty, or has the entries of what it replaces. -/
  | kept {replaced : Option Secret} {s : Secret} :
      (∀ key, s.text? key = replaced.bind (fun live => live.text? key)) →
      Spanned definitions past ⟨.secret, replaced, s⟩
  | bundle {replaced : Option ConfigMap} {m : ConfigMap} :
      Spanned definitions past ⟨.configMap, replaced, m⟩

/-- The surroundings of a pass during which the clock stands still, if passes are the only ones to
write the managed secrets. -/
def standing (managed : ResourceRef → Prop) (now : Instant) : Outside :=
  { alone managed with shows := fun t => t = now }

/-- While the clock stands still, all versions of the managed secrets are faithful, and the leaves
that a pass writes are within the validity of their authorities. -/
structure AllSpanned (managed : ResourceRef → Prop) (definitions : List Definition) (now : Instant)
    (h : History) : Prop where
  faithful : AllFaithful managed h
  clock : h.clock = now
  commits : ∀ c ∈ h.commits, Spanned definitions h.past c

variable {managed : ResourceRef → Prop} {definitions : List Definition} {watched : NameSet}
variable {now : Instant} {h h' : History} {d : Definition} {ca : Authority} {ref bundle : ResourceRef}
variable {leaf : Leaf}

/-- A write may come later. -/
theorem Spanned.mono {past past' : List (Sigma Object)} {c : Commit} (hc : Spanned definitions past c)
    (hpast : ∀ v ∈ past, v ∈ past') :
  Spanned definitions past' c
  := by
  cases hc with
  | leaf hd hstages hat hca hsign hcert hkey hwithin =>
    exact .leaf hd hstages hat (hca.mono hpast) hsign hcert hkey hwithin
  | signer hd hat hca hholds => exact .signer hd hat hca hholds
  | kept hsame => exact .kept hsame
  | bundle => exact .bundle

/-! ### One pass while the clock stands still -/

namespace AllSpanned

theorem civil (hs : AllSpanned managed definitions now h) {t : Instant}
    (ht : (standing managed now).shows t) :
  t.Civil
  := by
  rw [show t = now from ht, ← hs.clock]
  apply hs.faithful.civil

theorem drift (hs : AllSpanned managed definitions now h) (hd : h.Drift (standing managed now) h') :
  AllSpanned managed definitions now h'
  := by
  constructor
  · apply hs.faithful.drift (hd.mono id hs.civil)
  · apply hd.shows hs.clock
  · intro c hc
    rw [hd.commits] at hc
    apply (hs.commits c hc).mono hd.later.past

theorem steady :
  Procedure.Steady (standing managed now) (AllSpanned managed definitions now)
  := fun hs hd => hs.drift hd

theorem wrote {k : Kind} {o : Object k} (hs : AllSpanned managed definitions now h)
    (hw : h.Wrote ref o h')
    (hfaithful : ∀ s : Secret, (⟨k, o⟩ : Sigma Object) = ⟨.secret, s⟩ → s.Faithful Instant.Civil h.clock)
    (hspanned : Spanned definitions h.past ⟨k, h.store.find? k ref, h.store.stamped ref.ns o⟩) :
  AllSpanned managed definitions now h'
  := by
  constructor
  · apply hs.faithful.wrote hw hfaithful
  · rw [hw.clock, hs.clock]
  · intro c hc
    rw [hw.commits] at hc
    rcases List.mem_append.mp hc with hc | hc
    · apply (hs.commits c hc).mono hw.later.past
    · obtain rfl := List.mem_singleton.mp hc
      apply hspanned.mono hw.later.past

/-- The work of a pass on a secret is faithful, so only what it writes matters. -/
theorem wrote_secret {s : Secret} (hs : AllSpanned managed definitions now h) (href : managed ref)
    (hw : h.Wrote ref s h') (hwork : Work definitions Instant.Civil h ref s)
    (hspanned : Spanned definitions h.past
      ⟨.secret, h.store.find? .secret ref, h.store.stamped ref.ns s⟩) :
  AllSpanned managed definitions now h'
  := by
  apply hs.wrote hw _ hspanned
  rintro _ ⟨⟩
  apply hwork.faithful
  intro copy hcopy
  apply hs.faithful.versions href hcopy

theorem wrote_bundle {m : ConfigMap} (hs : AllSpanned managed definitions now h)
    (hw : h.Wrote ref m h') :
  AllSpanned managed definitions now h'
  := by
  apply hs.wrote hw _ .bundle
  rintro _ ⟨⟩

theorem secretUpkeep (href : managed ref) :
  SecretUpkeep (standing managed now) (AllSpanned managed definitions now) ref
  := by
  refine ⟨steady, fun hs => hs.clock, fun hs => hs.faithful.coherent, ⟨rfl, href⟩, ?_⟩
  intro h h' s hs hprepared hw
  apply hs.wrote_secret href hw (hprepared.mono hs.civil).work
  apply Spanned.kept
  intro key
  rw [Secret.text?_stamped]
  apply hprepared.text?_eq hs.faithful.coherent ⟨rfl, href⟩

theorem signerUpkeep (hd : d ∈ definitions) (href : managed d.signer) :
  SignerUpkeep (standing managed now) (AllSpanned managed definitions now) d.signer d.signerPolicy
  := by
  refine ⟨secretUpkeep href, ?_⟩
  intro h h' copy known now' issued v seed ca hs hcopy hover _ _ hv hca hw
  apply hs.wrote_secret href hw (.signed hd rfl hcopy hover hv hca)
  apply Spanned.signer hd hw.isAt hca
  apply Secret.holdsAuthority_of_authority
  rw [Secret.authority_of_content (Object.content_stamped _ _ _)]
  apply Secret.authority_withKeyPair (Authority.generate_eq_ok hv hca).1.loaded

/-- Of the authority of a signer stage, a fifth of the lifetime of its policy is left. -/
theorem leavesFifth {policy : Policy} (hs : AllSpanned managed definitions now h)
    (href : managed ref) (hca : Obtained (standing managed now).shows ref policy ca h) :
  ca.LeavesFifth policy.lifetime now
  := by
  cases hca with
  | kept hcopy hnow hauthority hdue =>
    obtain rfl := hnow
    have hfaithful := hs.faithful.versions href hcopy.version
    rw [hs.clock] at hfaithful
    apply hfaithful.leavesFifth hcopy.policy hauthority hdue
  | made _ hnow hlater hv hgenerate =>
    obtain rfl := hnow
    apply Authority.LeavesFifth.of_generate hv hgenerate hlater

/-- The invariant of the stages that use an authority. -/
def Using (managed : ResourceRef → Prop) (definitions : List Definition) (now : Instant)
    (ref : ResourceRef) (ca : Authority) (h : History) : Prop :=
  AllSpanned managed definitions now h ∧ Held ref ca h

theorem leafUpkeep (hd : d ∈ definitions) (hstages : d.stages = .ok (.full bundle leaf))
    (href : managed leaf.secret) (hca : ca.LeavesFifth d.signerPolicy.lifetime now)
    (trusted : List TrustedCertificate) (known : Option Secret) :
  LeafUpkeep (standing managed now) (Using managed definitions now d.signer ca)
    ⟨leaf.secret, leaf.policy, leafRequest leaf, known⟩ ca trusted
  := by
  refine ⟨(secretUpkeep href).and Held.later, ?_⟩
  intro h h' copy t seed issued hk hcopy hover ht hsign hw
  obtain rfl : t = now := ht
  refine ⟨?_, hk.2.later hw.later⟩
  apply hk.1.wrote_secret href hw
  · apply Work.filled ⟨d, hd, bundle, hstages⟩ rfl rfl hcopy hover hsign
  · obtain ⟨hcert, hkey, -⟩ := LeafStage.texts_filled
    apply Spanned.leaf hd hstages hw.isAt hk.2.storedAt hsign
    · rw [Secret.text?_stamped, hcert]
    · rw [Secret.text?_stamped, hkey]
    · apply hca.not_before_of_sign hsign

theorem bundleStage (hk : Using managed definitions now ref ca h) :
  Works (standing managed now) (Using managed definitions now ref ca) (bundleStage watched bundle ca)
    (fun _ _ => True) h
  := by
  apply Procedure.safe_bind
  apply Procedure.safe_ofResult
  · intro _ _
    apply Bundle.safe_ensure_of_indifferent _ _ hk
    · intro h h' hk hd
      exact ⟨hk.1.drift hd, hk.2.later hd.later⟩
    · intro h h' ref m hk hw
      exact ⟨hk.1.wrote_bundle hw, hk.2.later hw.later⟩
  · intro e _
    trivial

/-- The stages after the signer stage use an authority of which a fifth of the lifetime is left. -/
theorem laterStages {kept : Stages} (hd : d ∈ definitions) (hstages : d.stages = .ok kept)
    (hmanaged : ∀ ref, d.Names .secret ref → managed ref)
    (hca : ca.LeavesFifth d.signerPolicy.lifetime now)
    (hk : Using managed definitions now d.signer ca h) :
  Works (standing managed now) (Using managed definitions now d.signer ca)
    (laterStages watched ca kept) (fun _ _ => True) h
  := by
  cases kept with
  | signer =>
    apply Procedure.safe_pure
    trivial
  | signerAndBundle bundle =>
    apply Procedure.safe_bind
    apply Works.imp hk (bundleStage hk)
    intro trusted h₁ _ _ _
    apply Procedure.safe_pure
    trivial
  | full bundle leaf =>
    apply Procedure.safe_bind
    apply Works.imp hk (bundleStage hk)
    intro trusted h₁ _ hk₁ _
    apply LeafUpkeep.leafStage _ hk₁
    apply leafUpkeep hd hstages (hmanaged _ (.of_stages hstages)) hca

theorem planStages {p : Plan} (hd : p.1 ∈ definitions) (hstages : p.1.stages = .ok p.2)
    (hmanaged : ∀ ref, p.1.Names .secret ref → managed ref)
    (hs : AllSpanned managed definitions now h) :
  Works (standing managed now) (AllSpanned managed definitions now) (planStages watched p)
    (fun _ _ => True) h
  := by
  obtain ⟨d, kept⟩ := p
  have hsigner := hmanaged _ .signer
  apply Procedure.safe_bind
  apply Works.imp hs ((signerUpkeep hd hsigner).obtains hs)
  intro ca h₁ _ hs₁ hca
  -- From here on the authority is part of the invariant.
  have hk : Using managed definitions now d.signer ca h₁ := ⟨hs₁, hca.held⟩
  apply Procedure.safe_keep_mono (laterStages hd hstages hmanaged (hs₁.leavesFifth hsigner hca) hk)
  intro h' hk
  apply hk.1

/-- A pass during which the clock stands still writes leaves within the validity of their
authorities. -/
theorem sync (hmanaged : ∀ ref, Definition.Named definitions .secret ref → managed ref)
    (hs : AllSpanned managed definitions now h) :
  Works (standing managed now) (AllSpanned managed definitions now) (sync watched definitions)
    (fun _ h' => AllSpanned managed definitions now h') h
  := by
  apply safe_sync_keeps _ _ hs
  · intros
    trivial
  · intro plans hplans p hp h hs
    obtain ⟨hd, hstages, -⟩ := mem_of_preflight hplans hp
    apply Works.imp hs (planStages hd hstages (fun ref hnames => hmanaged ref ⟨p.1, hd, hnames⟩) hs)
    intro _ h₁ _ hs₁ _
    apply hs₁

end AllSpanned

/-! ### Runs of passes -/

/-- A history at the beginning of a pass, which has not written anything. -/
def begun (h : History) (now : Instant) : History := ⟨h.store, now, h.past, []⟩

/-- What passes come to that run one after the other, each over definitions of its own. The clock is
moved before a pass begins, never back, and stands still until the pass is over or left. -/
inductive Ran (managed : ResourceRef → Prop) (first : History) : List Definition → History → Prop where
  | start : Ran managed first [] first
  | pass {earlier definitions : List Definition} {watched : NameSet} {now : Instant}
      {h h' : History} {p : Program Request.Answer (Except Stop Unit)} :
      Ran managed first earlier h → now.Civil → ¬ now.before h.clock →
      (∀ ref, Definition.Named definitions .secret ref → managed ref) →
      Program.Met (History.step (standing managed now))
        (fun p => p = (Manager.sync watched definitions).run) (begun h now) p h' →
      Ran managed first definitions h'

theorem Ran.allSpanned {s : Store} {now : Instant} (hruns : Ran managed (.start s now) definitions h)
    (hnow : now.Civil) (hnone : ∀ ref, managed ref → s.find? .secret ref = none) :
  AllSpanned managed definitions h.clock h
  := by
  induction hruns with
  | start =>
    refine ⟨.start hnow hnone, rfl, ?_⟩
    intro c hc
    cases hc
  | @pass earlier definitions watched now h h' p _ hcivil hlater hmanaged hmet ih =>
    have hbegin : AllSpanned managed definitions now (begun h now) := by
      refine ⟨⟨hcivil, ?_, ?_⟩, rfl, ?_⟩
      · exact ⟨ih.faithful.coherent.live, ih.faithful.coherent.unique, ih.faithful.coherent.given⟩
      · intro ref s href hs
        apply (ih.faithful.versions href hs).later hlater
      · intro c hc
        cases hc
    have hend : AllSpanned managed definitions now h' := by
      apply hmet.keeps hbegin
      rintro _ h hbegun hs
      rw [hbegun]
      apply Program.Safe.mono (Procedure.safe_iff.mp (AllSpanned.sync hmanaged hs))
      intro _ _ _
      trivial
    rw [hend.clock]
    apply hend

/-- Passes over whatever definitions begin without the managed secrets and are their only writers. They
may be cut short, the caches may hold any earlier versions, and calls may fail. The clock stands still
during a pass. Whenever a pass writes a target with a new certificate for a definition in which the
lifetime of the leaf is at most a fifth of that of the signer, the certificate does not outlive that of
the authority that signed it. -/
theorem leaf_within_authority {s : Store} {now : Instant} (hnow : now.Civil)
    (hnone : ∀ ref, managed ref → s.find? .secret ref = none)
    (hruns : Ran managed (.start s now) definitions h) {c : Commit} (hc : c ∈ h.commits) :
  Spanned definitions h.past c
  := (hruns.allSpanned hnow hnone).commits c hc

/-- All versions of a secret are from the pass. -/
def Owned (ref : ResourceRef) (h : History) : Prop :=
  ∀ s : Secret, IsVersion ref s h → ∃ c ∈ h.commits, (⟨c.kind, c.stored⟩ : Sigma Object) = ⟨.secret, s⟩

/-- In surroundings without other writers, what is asked for leaves all versions of a secret owned. -/
theorem Owned.step {outside : Outside} {r : Request} {answer : r.Answer}
    (hown : ¬ outside.writes .secret ref) (hall : Owned ref h)
    (hstep : History.step outside h r answer h') :
  Owned ref h'
  := by
  obtain ⟨h₁, hd, hanswer⟩ := hstep
  have hall₁ : Owned ref h₁ := by
    rintro s ⟨hmem, hat⟩
    rw [hd.commits]
    apply hall s ⟨hd.of_mem_past hown hat hmem, hat⟩
  rcases hanswer.wrote with rfl | ⟨k, place, o, hw⟩
  · apply hall₁
  · rintro s ⟨hmem, hat⟩
    rw [hw.commits]
    rcases hw.of_mem_past hmem with hsame | hmem
    · exact ⟨_, List.mem_append_right _ List.mem_cons_self, hsame.symm⟩
    · obtain ⟨c, hc, hsame⟩ := hall₁ s ⟨hmem, hat⟩
      exact ⟨c, List.mem_append_left _ hc, hsame⟩

/-- A pass over the sample definitions on an empty store, and the leaf that it writes. -/
theorem leaf_within_authority_of_sample :
  ∃ (h : History) (c : Commit) (s : Secret),
    Ran (fun ref => ref.ns = "pki") (.start (Store.new ["pki"]) (Instant.ofSeconds 0))
        (Definition.sample "pki" "api") h
      ∧ c ∈ h.commits ∧ (⟨c.kind, c.stored⟩ : Sigma Object) = ⟨.secret, s⟩
      ∧ s.IsAt ⟨"pki", "api-server-cert"⟩ ∧ Spanned (Definition.sample "pki" "api") h.past c
  := by
  let managed : ResourceRef → Prop := fun ref => ref.ns = "pki"
  let pass := (sync (NameSet.ofNames ["pki"]) (Definition.sample "pki" "api")).run
  let now := Instant.ofSeconds 0
  let empty : World := { store := Store.new ["pki"], clock := now }
  let first : History := .start empty.store now
  have hcivil : now.Civil := (shown_ofSeconds 0).civil
  have hnone : ∀ k ref, (Store.new ["pki"]).find? k ref = none := Store.find?_new ["pki"]
  have hcoherent : first.Coherent (standing managed now).follows :=
    History.coherent_start (fun k ref _ => hnone k ref) now
  have hnamed : ∀ ref, Definition.Named (Definition.sample "pki" "api") .secret ref → managed ref := by
    rintro ref ⟨d, hd, hnames⟩
    apply Definition.namespaces_sample hd _ hnames.mem_namespaces
  -- The pass goes through in a world, so it is met in a history.
  obtain ⟨w, hrun, -, -, hrestored⟩ := exists_run_sample "pki" "api" (by decide) (by decide)
    (shown_ofSeconds 0) (issuable_sample_api 0 (by decide))
  have hcontinues : first.Continues (NameSet.ofNames ["pki"]) empty :=
    ⟨World.calm_new ["pki"] now, rfl, rfl⟩
  have hwatched : ∀ k ref, (standing managed now).follows k ref →
      (NameSet.ofNames ["pki"]).contains ref.ns := by
    rintro k ref ⟨-, hns⟩
    rw [hns]
    decide
  have hbegun : Program.Met (History.step (standing managed now)) (fun p => p = pass) first pass first :=
    .start rfl
  obtain ⟨h, hmet, hends⟩ := hcontinues.met hcoherent hwatched hbegun
  have hend : (pass.run World.handle empty).2 = w := congrArg Prod.snd hrun
  rw [hend] at hends
  have hruns : Ran managed first (Definition.sample "pki" "api") h :=
    .pass .start hcivil (by simp [first, now, History.start]) hnamed hmet
  -- The target is there, and only the pass can have written it.
  obtain ⟨ca, -, -, hleaf⟩ := hrestored _ List.mem_cons_self
  obtain ⟨leaf, s, info, certPem, keyPem, -, hsecret, hkept⟩ := hleaf _ _ rfl rfl
  have hlive := hkept.live
  rw [← hends.store, hsecret] at hlive
  obtain ⟨hat, hmem⟩ := (hruns.allSpanned hcivil (fun ref _ => hnone .secret ref)).faithful.coherent.live
    ⟨rfl, rfl⟩ hlive
  have howned : Owned ⟨"pki", "api-server-cert"⟩ h := by
    apply hmet.keeps (s := h)
    · rintro s ⟨hmem, -⟩
      cases hmem
    · intro p h₁ _ howned
      apply Program.Safe.mono (Program.safe_of_step _ p howned)
      · intros
        trivial
      · intro h₁ r answer h₂ howned hstep
        apply howned.step _ hstep
        exact fun hwrites => hwrites ⟨rfl, rfl⟩
  obtain ⟨c, hc, hsame⟩ := howned s ⟨hmem, hat⟩
  exact ⟨h, c, s, hruns, hc, hsame, hat,
    leaf_within_authority hcivil (fun ref _ => hnone .secret ref) hruns hc⟩

end Manager

end CertKeeper
