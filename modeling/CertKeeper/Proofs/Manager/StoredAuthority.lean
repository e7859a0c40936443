import CertKeeper.Proofs.Cluster.Fleet
import CertKeeper.Proofs.Definition.Sample
import CertKeeper.Proofs.Manager.Preflight
import CertKeeper.Proofs.Manager.Stage

/-!
# Only stored authorities are used

An authority travels by value through the stages of a definition. It comes from a version of the
signer's secret that the pass has read, or from one that the pass has stored, never from one that it
only tried to store. So however the passes of several managers interleave, a pass publishes and signs
with authorities alone that were in the store before (`Manager.uses_stored_authorities`).

`Manager.Sourced` says of every write of a pass where the certificates in it come from, and
`Manager.AllSourced` is the invariant of a single pass among others.
-/

namespace CertKeeper

/-- The certificate of an authority is the first one in a secret, and its key is the key there. -/
structure Secret.HoldsAuthority (s : Secret) (ca : Authority) : Prop where
  certificate : ∃ text rest, s.text? EntryKey.certificate = some text
    ∧ parseCertificates text = .ok (ca.trusted :: rest)
  privateKey : s.text? EntryKey.privateKey = some ca.keyPem

theorem Secret.required_eq_ok {s : Secret} {key text : String} (h : s.required key = .ok text) :
  s.text? key = some text
  := by
  unfold Secret.required at h
  split at h
  · cases h
  · rename_i text' htext
    cases h
    apply htext

/-- The authority that is loaded from a secret is held by it. -/
theorem Secret.holdsAuthority_of_authority {s : Secret} {ca : Authority} (h : s.authority = .ok ca) :
  s.HoldsAuthority ca
  := by
  simp only [Secret.authority, bind_eq_ok] at h
  obtain ⟨certPem, hcert, keyPem, hkey, h⟩ := h
  obtain ⟨-, rfl, rest, hparse⟩ := Authority.ofPem_eq_ok h
  constructor
  · exact ⟨certPem, rest, Secret.required_eq_ok hcert, hparse⟩
  · apply Secret.required_eq_ok hkey

namespace Manager

/-- A version of a secret held an authority. -/
def StoredAt (past : List (Sigma Object)) (ref : ResourceRef) (ca : Authority) : Prop :=
  ∃ s : Secret, (⟨.secret, s⟩ : Sigma Object) ∈ past ∧ s.IsAt ref ∧ s.HoldsAuthority ca

/-- Where a write of a pass has its certificates from, after the versions that were stored before. -/
inductive Sourced (definitions : List Definition) (past : List (Sigma Object)) : Commit → Prop where
  /-- A bundle has the certificate of a stored authority first. -/
  | bundle {d : Definition} {ref : ResourceRef} {ca : Authority} {replaced : Option ConfigMap}
      {m : ConfigMap} : d ∈ definitions → d.bundle = some ref → m.IsAt ref →
      StoredAt past d.signer ca → (Bundle.listed (some m)).head? = some ca.trusted →
      Sourced definitions past ⟨.configMap, replaced, m⟩
  /-- A target has a certificate that a stored authority has just signed. -/
  | leaf {d : Definition} {bundle : ResourceRef} {leaf : Leaf} {ca : Authority}
      {replaced : Option Secret} {s : Secret} {now : Instant} {seed : Nat}
      {issued : IssuedCertificate} : d ∈ definitions → d.stages = .ok (.full bundle leaf) →
      s.IsAt leaf.secret → StoredAt past d.signer ca →
      ca.sign (leafRequest leaf) now leaf.policy.lifetime (KeyPair.generate seed) = .ok issued →
      s.text? EntryKey.certificate = some issued.certPem →
      s.text? EntryKey.privateKey = some issued.keyPem →
      Sourced definitions past ⟨.secret, replaced, s⟩
  /-- A signer has a new authority. -/
  | signer {d : Definition} {ca : Authority} {replaced : Option Secret} {s : Secret}
      {commonName : String} {v : Validity} {seed : Nat} : d ∈ definitions → s.IsAt d.signer →
      Authority.generate commonName v (KeyPair.generate seed) = .ok ca → s.HoldsAuthority ca →
      Sourced definitions past ⟨.secret, replaced, s⟩
  /-- A secret is new and empty, or has the entries of what it replaces. -/
  | kept {replaced : Option Secret} {s : Secret} :
      (∀ key, s.text? key = replaced.bind (fun live => live.text? key)) →
      Sourced definitions past ⟨.secret, replaced, s⟩

variable {definitions : List Definition} {watched : NameSet} {h h' : History} {d : Definition}
variable {ca : Authority} {bundle ref : ResourceRef} {leaf : Leaf}

theorem Held.storedAt (hca : Held ref ca h) :
  StoredAt h.past ref ca
  := by
  obtain ⟨s, ⟨hmem, hat⟩, hauthority⟩ := hca
  exact ⟨s, hmem, hat, Secret.holdsAuthority_of_authority hauthority⟩

theorem StoredAt.mono {past past' : List (Sigma Object)} (hca : StoredAt past ref ca)
    (hpast : ∀ v ∈ past, v ∈ past') :
  StoredAt past' ref ca
  := by
  obtain ⟨s, hmem, hat, hholds⟩ := hca
  exact ⟨s, hpast _ hmem, hat, hholds⟩

/-- A write may come later. -/
theorem Sourced.mono {past past' : List (Sigma Object)} {c : Commit} (hc : Sourced definitions past c)
    (hpast : ∀ v ∈ past, v ∈ past') :
  Sourced definitions past' c
  := by
  cases hc with
  | bundle hd hbundle hat hca hfirst => exact .bundle hd hbundle hat (hca.mono hpast) hfirst
  | leaf hd hstages hat hca hsign hcert hkey =>
    exact .leaf hd hstages hat (hca.mono hpast) hsign hcert hkey
  | signer hd hat hca hholds => exact .signer hd hat hca hholds
  | kept hsame => exact .kept hsame

/-- All writes of a pass are sourced. -/
structure AllSourced (definitions : List Definition) (h : History) : Prop where
  coherent : h.Coherent (fun _ _ => True)
  commits : ∀ c ∈ h.commits, ∃ earlier, (⟨c.kind, c.stored⟩ :: earlier) <:+ h.past
    ∧ Sourced definitions earlier c

/-! ### One pass among others -/

namespace AllSourced

theorem drift {outside : Outside} (hs : AllSourced definitions h) (hd : h.Drift outside h') :
  AllSourced definitions h'
  := by
  constructor
  · apply hs.coherent.drift hd
  · intro c hc
    rw [hd.commits] at hc
    obtain ⟨earlier, hsuffix, hsourced⟩ := hs.commits c hc
    exact ⟨earlier, hsuffix.trans hd.past_suffix, hsourced⟩

theorem steady {outside : Outside} :
  Procedure.Steady outside (AllSourced definitions)
  := fun hs hd => hs.drift hd

theorem wrote {k : Kind} {o : Object k} (hs : AllSourced definitions h) (hw : h.Wrote ref o h')
    (hsourced : Sourced definitions h.past ⟨k, h.store.find? k ref, h.store.stamped ref.ns o⟩) :
  AllSourced definitions h'
  := by
  constructor
  · apply hs.coherent.wrote hw
  · intro c hc
    rw [hw.past]
    rw [hw.commits] at hc
    rcases List.mem_append.mp hc with hc | hc
    · obtain ⟨earlier, hsuffix, hsourced⟩ := hs.commits c hc
      exact ⟨earlier, hsuffix.trans (List.suffix_cons _ _), hsourced⟩
    · obtain rfl := List.mem_singleton.mp hc
      exact ⟨h.past, List.suffix_rfl, hsourced⟩

/-- Preparing a secret leaves the entries of the secret. -/
theorem prepared {s : Secret} {shows : Instant → Prop} (hs : AllSourced definitions h)
    (hprepared : Preparation shows h ref s) (hw : h.Wrote ref s h') :
  AllSourced definitions h'
  := by
  apply hs.wrote hw
  apply Sourced.kept
  intro key
  rw [Secret.text?_stamped]
  apply hprepared.text?_eq hs.coherent trivial

variable {outside : Outside}

/-- The preparation of a secret keeps the writes sourced. -/
theorem secretUpkeep (hshows : ∀ now, outside.shows now) (hfollows : outside.follows .secret ref) :
  SecretUpkeep outside (AllSourced definitions) ref
  := by
  refine ⟨steady, fun _ => hshows _, ?_, hfollows, ?_⟩
  · intro h hs
    apply hs.coherent.mono
    intros
    trivial
  · intro h h' s hs hprepared hw
    apply hs.prepared hprepared hw

theorem signerUpkeep (hshows : ∀ now, outside.shows now) (hd : d ∈ definitions)
    (hfollows : outside.follows .secret d.signer) :
  SignerUpkeep outside (AllSourced definitions) d.signer d.signerPolicy
  := by
  refine ⟨secretUpkeep hshows hfollows, ?_⟩
  intro h h' copy known now issued v seed ca hs hcopy _ _ _ hv hca hw
  apply hs.wrote hw
  apply Sourced.signer hd hw.isAt hca
  apply Secret.holdsAuthority_of_authority
  rw [Secret.authority_of_content (Object.content_stamped _ _ _)]
  apply Secret.authority_withKeyPair (Authority.generate_eq_ok hv hca).1.loaded

/-- The invariant of the stages that use an authority. -/
def Using (definitions : List Definition) (ref : ResourceRef) (ca : Authority) (h : History) : Prop :=
  AllSourced definitions h ∧ Held ref ca h

theorem leafUpkeep (hshows : ∀ now, outside.shows now) (hd : d ∈ definitions)
    (hstages : d.stages = .ok (.full bundle leaf)) (hfollows : outside.follows .secret leaf.secret)
    (trusted : List TrustedCertificate) (known : Option Secret) :
  LeafUpkeep outside (Using definitions d.signer ca) ⟨leaf.secret, leaf.policy, leafRequest leaf, known⟩
    ca trusted
  := by
  refine ⟨(secretUpkeep hshows hfollows).and Held.later, ?_⟩
  intro h h' copy now seed issued hk hcopy _ _ hsign hw
  refine ⟨?_, hk.2.later hw.later⟩
  apply hk.1.wrote hw
  obtain ⟨hcert, hkey, -⟩ := LeafStage.texts_filled
  apply Sourced.leaf hd hstages hw.isAt hk.2.storedAt hsign
  · rw [Secret.text?_stamped, hcert]
  · rw [Secret.text?_stamped, hkey]

theorem bundleUpkeep (hd : d ∈ definitions) (hbundle : d.bundle = some bundle)
    (hfollows : outside.follows .configMap bundle) (hca : ca.Loaded) :
  Bundle.Upkeep outside (Using definitions d.signer ca) bundle ca
  := by
  refine ⟨fun hk hd => ⟨hk.1.drift hd, hk.2.later hd.later⟩, ?_, hfollows, hca.certPem_ne_empty, ?_⟩
  · intro h hk
    apply hk.1.coherent.mono
    intros
    trivial
  · intro h h' now hk _ hw
    refine ⟨?_, hk.2.later hw.later⟩
    apply hk.1.wrote hw
    apply Sourced.bundle hd hbundle hw.isAt hk.2.storedAt
    rw [Bundle.listed_stamped hca.genuine, Bundle.merge_eq, List.head?_cons]

theorem bundleStage (hd : d ∈ definitions) (hbundle : d.bundle = some bundle)
    (hfollows : outside.follows .configMap bundle) (hca : ca.Loaded)
    (hk : Using definitions d.signer ca h) :
  Works outside (Using definitions d.signer ca) (bundleStage watched bundle ca) (fun _ _ => True) h
  := by
  apply Procedure.safe_bind
  apply Procedure.safe_ofResult
  · intro _ _
    apply Procedure.safe_imp hk (Bundle.safe_ensure (bundleUpkeep hd hbundle hfollows hca) hk)
    · intros
      trivial
    · intros
      trivial
  · intro e _
    trivial

/-- The stages after the signer stage use an authority that a version of the signer held. -/
theorem laterStages {kept : Stages} (hshows : ∀ now, outside.shows now)
    (hfollows : ∀ k ref, d.Names k ref → outside.follows k ref) (hd : d ∈ definitions)
    (hstages : d.stages = .ok kept) (hk : Using definitions d.signer ca h) :
  Works outside (Using definitions d.signer ca) (laterStages watched ca kept) (fun _ _ => True) h
  := by
  have hnames := Definition.of_stages hstages
  have hloaded := hk.2.loaded
  cases kept with
  | signer =>
    apply Procedure.safe_pure
    trivial
  | signerAndBundle bundle =>
    apply Procedure.safe_bind
    apply Works.imp hk (bundleStage hd hnames.1 (hfollows _ _ (.bundle hnames.1)) hloaded hk)
    intro trusted h₁ _ _ _
    apply Procedure.safe_pure
    trivial
  | full bundle leaf =>
    apply Procedure.safe_bind
    apply Works.imp hk (bundleStage hd hnames.1 (hfollows _ _ (.bundle hnames.1)) hloaded hk)
    intro trusted h₁ _ hk₁ _
    apply LeafUpkeep.leafStage _ hk₁
    apply leafUpkeep hshows hd hstages (hfollows _ _ (.of_stages hstages))

theorem planStages {p : Plan} (hshows : ∀ now, outside.shows now)
    (hfollows : ∀ k ref, p.1.Names k ref → outside.follows k ref) (hd : p.1 ∈ definitions)
    (hstages : p.1.stages = .ok p.2) (hs : AllSourced definitions h) :
  Works outside (AllSourced definitions) (planStages watched p) (fun _ _ => True) h
  := by
  obtain ⟨d, kept⟩ := p
  have hsigner : SignerUpkeep outside (AllSourced definitions) d.signer d.signerPolicy :=
    signerUpkeep hshows hd (hfollows _ _ .signer)
  apply Procedure.safe_bind
  apply Works.imp hs (hsigner.signerStage hs)
  intro ca h₁ _ hs₁ hheld
  -- From here on the authority is part of the invariant.
  apply Procedure.safe_keep_mono (laterStages hshows hfollows hd hstages ⟨hs₁, hheld⟩)
  intro h' hk
  apply hk.1

/-- A pass among others keeps its writes sourced. -/
theorem sync (hs : AllSourced definitions h) :
  Works (among watched) (AllSourced definitions) (sync watched definitions) (fun _ _ => True) h
  := by
  have hpass : (Manager.sync watched definitions).Safe (History.step (among watched))
      (AllSourced definitions) (fun _ h' => AllSourced definitions h') (fun _ _ => True) h := by
    apply safe_sync_keeps _ _ hs
    · intros
      trivial
    · intro plans hplans p hp h hs
      obtain ⟨hd, hstages, hwatched⟩ := mem_of_preflight hplans hp
      have hfollows : ∀ k ref, p.1.Names k ref → (among watched).follows k ref :=
        fun k ref hnames => hwatched _ hnames.mem_namespaces
      apply Works.imp hs (planStages (fun _ => trivial) hfollows hd hstages hs)
      intro _ h₁ _ hs₁ _
      apply hs₁
  apply Works.imp hs hpass
  intros
  trivial

end AllSourced

/-! ### A pass that was overtaken -/

/-- In a store with nothing but the empty secret of the first signer a pass goes through, and restores all
definitions. -/
theorem exists_run_of_created {namespaces : List String} {now : Instant} {plans : List Plan} {p : Plan}
    {b : Secret} {s : Store}
    (hplans : preflight (NameSet.ofNames namespaces) definitions = .ok (p :: plans))
    (hagree : Agree definitions) (hsep : Definition.Separate definitions) (hnow : Shown now)
    (hissuable : ∀ d ∈ definitions, Issuable now d)
    (hcreate : (Store.new namespaces).create p.1.signer.ns (⟨{ name := p.1.signer.name }, {}⟩ : Secret)
      = (.ok b, s)) :
  ∃ w w' : World, w.Calm (NameSet.ofNames namespaces) ∧ w.store = s ∧ w.clock = now
    ∧ w.cached? .secret p.1.signer = some b
    ∧ World.run (sync (NameSet.ofNames namespaces) definitions) w = (.ok (), w')
    ∧ ∀ d ∈ definitions, ∃ ca, Restored w' d ca
  := by
  obtain ⟨h, hstart⟩ : ∃ h, h = History.start (Store.new namespaces) now := ⟨_, rfl⟩
  obtain ⟨-, hb, hs⟩ := Store.create_eq_ok hcreate
  have hcalm : World.Calm (NameSet.ofNames namespaces) { store := s, clock := now } :=
    (World.calm_new namespaces now).commit .create rfl rfl hs
  have hcustody : Custody definitions Shown (h.committed s p.1.signer b) := by
    obtain ⟨found, created, got, hrun, hfound, -⟩ := exists_requests_sync hplans
    have hbegun : Program.Met (History.step (apart definitions Shown))
        (fun q => q = (sync (NameSet.ofNames namespaces) definitions).run) h
        (.ask (.cached .secret p.1.signer) found) h := hrun ▸ .start rfl
    have hasked : Program.Met _ _ h (found none) h :=
      hbegun.answered ⟨h, .none, rfl, fun _ _ ho => nomatch ho⟩
    rw [hfound] at hasked
    have hmade : Program.Met _ _ h (created (.ok b)) (h.committed s p.1.signer b) :=
      hasked.answered ⟨h, .none, .inr ⟨b, s, hstart ▸ hcreate, rfl, rfl⟩⟩
    rw [hstart] at hmade ⊢
    apply custody_of_met hsep hnow (fun k ref _ => Store.find?_new namespaces k ref) hmade
  have hclock : (h.committed s p.1.signer b).clock = now := by
    rw [hstart]
    rfl
  obtain ⟨_, w', hrun, hrestored⟩ :=
    (leads_sync_restored hplans hagree hsep hissuable hcustody ⟨hcalm, rfl, hclock⟩).exists_run
  have hsigner : (NameSet.ofNames namespaces).contains p.1.signer.ns := by
    obtain ⟨-, -, hwatched⟩ := mem_of_preflight hplans List.mem_cons_self
    apply hwatched _ Definition.Names.signer.mem_namespaces
  refine ⟨_, w', hcalm, rfl, rfl, ?_, hrun, hrestored⟩
  rw [hcalm.cached?_eq hsigner, hs, hb]
  apply Store.find?_commit_self

/-! ### Passes of several managers -/

variable {ι : Type} [DecidableEq ι]

/-- Passes begin, each over definitions of its own. -/
structure Begins (watched : ι → NameSet) (definitions : ι → List Definition)
    (f : Fleet ι (Except Stop Unit)) : Prop where
  coherent : ∀ i, (f.view i).Coherent (fun _ _ => True)
  left : ∀ i, f.left i = (sync (watched i) (definitions i)).run
  commits : ∀ i, f.commits i = []

variable {watching : ι → NameSet} {lists : ι → List Definition}
variable {first f f' : Fleet ι (Except Stop Unit)} {i : ι}

/-- However passes interleave, the writes of each are sourced. -/
theorem Begins.allSourced (hbegins : Begins watching lists first) (hruns : first.Runs watching f)
    (i : ι) :
  AllSourced (lists i) (f.view i)
  := by
  have hfirst : ∀ i, AllSourced (lists i) (first.view i) := by
    intro i
    refine ⟨hbegins.coherent i, ?_⟩
    intro c hc
    rw [Fleet.view, hbegins.commits i] at hc
    cases hc
  have hsteady : ∀ i, Procedure.Steady (among (watching i)) (AllSourced (lists i)) :=
    fun i => AllSourced.steady
  apply hruns.keeps hsteady hfirst
  intro i
  rw [hbegins.left i]
  apply Program.Safe.mono (Procedure.safe_iff.mp (hfirst i).sync)
  intro _ _ _
  trivial

/-- Two passes begin on an empty store, and both are about to create the first signer. One of them creates
its secret. The other one, which must not create it again, restores all definitions alone. -/
theorem exists_overtaken {namespaces : List String} {definitions : List Definition} {now : Instant}
    {plans : List Plan} {p : Plan} {b : Secret} {s : Store}
    (hplans : preflight (NameSet.ofNames namespaces) definitions = .ok (p :: plans))
    (hagree : Agree definitions) (hsep : Definition.Separate definitions) (hnow : Shown now)
    (hissuable : ∀ d ∈ definitions, Issuable now d)
    (hcreate : (Store.new namespaces).create p.1.signer.ns (⟨{ name := p.1.signer.name }, {}⟩ : Secret)
      = (.ok b, s)) :
  ∃ (first e g f : Fleet Bool (Except Stop Unit)) (w : World),
    Begins (fun _ => NameSet.ofNames namespaces) (fun _ => definitions) first
      ∧ first.Runs (fun _ => NameSet.ofNames namespaces) e
      ∧ (∀ i, ∃ next,
        e.left i = .ask (.create .secret p.1.signer.ns ⟨{ name := p.1.signer.name }, {}⟩) next)
      ∧ e.Step (fun _ => NameSet.ofNames namespaces) g
      ∧ g.commits false = e.commits false ++ [⟨.secret, none, b⟩]
      ∧ g.past = [⟨.secret, b⟩] ∧ g.commits true = []
      ∧ g.Runs (fun _ => NameSet.ofNames namespaces) f ∧ f.commits false = [⟨.secret, none, b⟩]
      ∧ (f.view true).Coherent (fun _ _ => True) ∧ f.store = w.store
      ∧ ∀ d ∈ definitions, ∃ ca, Restored w d ca
  := by
  let watching : Bool → NameSet := fun _ => NameSet.ofNames namespaces
  let pass := (sync (NameSet.ofNames namespaces) definitions).run
  let first : Fleet Bool (Except Stop Unit) :=
    ⟨Store.new namespaces, now, [], fun _ => pass, fun _ => []⟩
  have hcoherent : ∀ i, (first.view i).Coherent (fun _ _ => True) :=
    fun _ => History.coherent_start (fun k ref _ => Store.find?_new namespaces k ref) now
  obtain ⟨found, created, got, hpass, hfound, hcreated, hgot⟩ := exists_requests_sync hplans
  have hleft : ∀ i, first.left i = .ask (.cached .secret p.1.signer) found := fun _ => hpass
  obtain ⟨e, g, t, hbefore, hcommits, hasks, hstep, hwrites, hview, hafter, hviews, hgoes⟩ :=
    Fleet.exists_race watching hleft hfound hcreated rfl hcreate
  -- The one that was refused is carried out to its end.
  obtain ⟨w, w', hcalm, hstore, hclock, hcached, hrun, hrestored⟩ :=
    exists_run_of_created hplans hagree hsep hnow hissuable hcreate
  rw [World.run, hpass, Program.run, World.handle, hcached] at hrun
  have hview' : t.view true = (first.view true).recorded s b := (hviews true).trans hview
  have hcontinues : (t.view true).Continues (watching true) w := by
    rw [hview']
    exact ⟨hcalm, hstore.symm, hclock.symm⟩
  have hcoherent' : (t.view true).Coherent (fun _ _ => True) := by
    obtain ⟨-, rfl, rfl⟩ := Store.create_eq_ok hcreate
    rw [hview']
    apply (hcoherent true).recorded
  obtain ⟨f, hruns, hends, hcoherent'', hidle⟩ :=
    Fleet.runs_of_continues (hgoes.trans (hgot b)) hcontinues hcoherent'
  rw [hrun] at hends
  have hsole : f.commits false = [⟨.secret, none, b⟩] := by
    have hsame : t.commits false = g.commits false := congrArg History.commits (hviews false)
    rw [hidle false (by decide), hsame, hwrites]
    rfl
  rw [← hcommits] at hwrites
  exact ⟨first, e, g, f, w', ⟨hcoherent, fun _ => rfl, fun _ => rfl⟩, hbefore,
    fun i => ⟨created, hasks i⟩, hstep, hwrites, congrArg History.past hview,
    congrArg History.commits hview, hafter.trans hruns, hsole, hcoherent'', hends.store, hrestored⟩

/-- Passes of any number of managers use one store. Each begins at any time, with caches that show
nothing or any version that was stored earlier, and any call may fail. Whenever one of them writes a
bundle, the first certificate there is of an authority that a version of the definition's signer held
before, with its key. Whenever one of them writes a target with a new certificate, such an authority
has signed it. So an authority that a pass made, but did not get stored, is neither published nor
signs anything. -/
theorem uses_stored_authorities (hbegins : Begins watching lists first)
    (hruns : first.Runs watching f) (hstep : f.Step watching f') {c : Commit}
    (hwrites : f'.commits i = f.commits i ++ [c]) :
  Sourced (lists i) f.past c
  := by
  have hmem : c ∈ (f'.view i).commits := by
    rw [Fleet.view, hwrites]
    apply List.mem_append_right _ List.mem_cons_self
  obtain ⟨earlier, hsuffix, hc⟩ := (hbegins.allSourced (hruns.tail hstep) i).commits c hmem
  rw [Fleet.view, hstep.past_of_commits hwrites] at hsuffix
  apply hc.mono
  intro v hv
  rcases List.suffix_cons_iff.mp hsuffix with hsame | hsuffix
  · cases hsame
    apply hv
  · apply hsuffix.subset (List.mem_cons_of_mem _ hv)

/-- Two managers with the sample definitions on an empty store, and both are about to create the first
signer. One of them creates its secret. The other one must not create it again, goes on from what was
created, and publishes the bundle. -/
theorem uses_stored_authorities_of_race :
  ∃ (first e g f f' : Fleet Bool (Except Stop Unit)) (b c : Commit) (m : ConfigMap),
    Begins (fun _ => NameSet.ofNames ["pki"]) (fun _ => Definition.sample "pki" "api") first
      ∧ first.Runs (fun _ => NameSet.ofNames ["pki"]) e
      ∧ (∀ i, ∃ next, e.left i = .ask (.create .secret "pki" ⟨{ name := "api-signer" }, {}⟩) next)
      ∧ e.Step (fun _ => NameSet.ofNames ["pki"]) g ∧ g.commits false = e.commits false ++ [b]
      ∧ Sourced (Definition.sample "pki" "api") e.past b
      ∧ g.Runs (fun _ => NameSet.ofNames ["pki"]) f ∧ f.Step (fun _ => NameSet.ofNames ["pki"]) f'
      ∧ f'.commits true = f.commits true ++ [c]
      ∧ (⟨c.kind, c.stored⟩ : Sigma Object) = ⟨.configMap, m⟩ ∧ m.IsAt ⟨"pki", "api-ca-bundle"⟩
      ∧ Sourced (Definition.sample "pki" "api") f.past c
  := by
  obtain ⟨p, plans, hplans, hsigner⟩ : ∃ p plans,
      preflight (NameSet.ofNames ["pki"]) (Definition.sample "pki" "api") = .ok (p :: plans)
        ∧ p.1.signer = ⟨"pki", "api-signer"⟩ := by
    obtain ⟨plans, hplans⟩ := preflight_sample (show "pki" ≠ "" by decide) (show "api" ≠ "" by decide)
    obtain ⟨p, plans, rfl, hp, -⟩ := List.map_eq_cons_iff.mp (map_fst_of_preflight hplans)
    exact ⟨p, plans, hplans, congrArg Definition.signer hp⟩
  obtain ⟨b, s, hcreate⟩ : ∃ b s, (Store.new ["pki"]).create p.1.signer.ns
      (⟨{ name := p.1.signer.name }, {}⟩ : Secret) = (.ok b, s) := ⟨_, _, rfl⟩
  obtain ⟨first, e, g, f, w, hbegins, hbefore, hasks, hstep, hwrites, hpast, hnothing, hafter, hfirst,
      hcoherent, hstore, hrestored⟩ :=
    exists_overtaken hplans (agree_sample "pki" "api") (Definition.separate_sample "pki" "api")
      (shown_ofSeconds 0) (issuable_sample_api 0 (by decide)) hcreate
  rw [hsigner] at hasks
  obtain ⟨ca, -, hbundle, -⟩ := hrestored _ List.mem_cons_self
  obtain ⟨m, hfind, -⟩ := hbundle _ rfl
  rw [← hstore] at hfind
  obtain ⟨hat, hmem⟩ := hcoherent.live trivial hfind
  -- The bundle that is stored in the end is what the second manager wrote.
  obtain hold | ⟨i, c, hc, hsame⟩ := hafter.of_mem_past hmem
  · rw [hpast] at hold
    cases List.mem_singleton.mp hold
  · cases i with
    | false =>
      rw [hfirst] at hc
      obtain rfl := List.mem_singleton.mp hc
      cases hsame
    | true =>
      obtain ⟨f₁, f₂, hruns, hstep', hwrites'⟩ := hafter.exists_write hc hnothing
      have hall : first.Runs (fun _ => NameSet.ofNames ["pki"]) f₁ := (hbefore.tail hstep).trans hruns
      exact ⟨first, e, g, f₁, f₂, _, c, m, hbegins, hbefore, hasks, hstep, hwrites,
        uses_stored_authorities hbegins hbefore hstep hwrites, hruns, hstep', hwrites', hsame.symm, hat,
        uses_stored_authorities hbegins hall hstep' hwrites'⟩

end Manager

end CertKeeper
