import CertKeeper.Proofs.Definition.Alike
import CertKeeper.Proofs.Manager.Idempotence
import CertKeeper.Proofs.Manager.Reissue

/-!
# Another policy is contained

After a pass that went through, one definition, whose objects no other one names, is given another
policy. A pass over the changed list at the same time leaves the other definitions alone, since
everything is settled for them before and after (`Manager.leads_sync_around`). For another policy of the
signer it updates the signer twice, then the bundle and the leaf once each, as far as they are kept, and
for another policy of the leaf it updates the leaf twice (`Manager.policy_drift_contained`).
-/

namespace CertKeeper

/-- An update of each object that is kept beside the signer. -/
def Stages.updates : Stages → List Write
  | .signer => []
  | .signerAndBundle bundle => [⟨.update, .configMap, bundle⟩]
  | .full bundle leaf => [⟨.update, .configMap, bundle⟩, ⟨.update, .secret, leaf.secret⟩]

/-- Two updates of the leaf that is kept, if there is one. A target without a bundle beside it is not
kept. -/
def Stages.leafUpdates : Stages → List Write
  | .full _ leaf => [⟨.update, .secret, leaf.secret⟩, ⟨.update, .secret, leaf.secret⟩]
  | _ => []

namespace Definition

variable {d : Definition} {kept : Stages} {x : Write}

/-- What is updated is kept for the definition. -/
theorem names_of_mem_updates (hstages : d.stages = .ok kept) (hx : x ∈ kept.updates) :
  d.Names x.kind x.ref
  := by
  have hof := of_stages hstages
  cases kept with
  | signer => cases hx
  | signerAndBundle bundle =>
    obtain rfl := List.mem_singleton.mp hx
    exact .bundle hof.1
  | full bundle leaf =>
    rcases List.mem_cons.mp hx with rfl | hx
    · exact .bundle hof.1
    · obtain rfl := List.mem_singleton.mp hx
      exact .of_stages hstages

theorem names_of_mem_leafUpdates (hstages : d.stages = .ok kept) (hx : x ∈ kept.leafUpdates) :
  d.Names x.kind x.ref
  := by
  cases kept with
  | signer => cases hx
  | signerAndBundle bundle => cases hx
  | full bundle leaf =>
    have hleaf : x = ⟨.update, .secret, leaf.secret⟩ := by
      simpa [Stages.leafUpdates] using hx
    rw [hleaf]
    exact .of_stages hstages

end Definition

namespace Manager

variable {watched : NameSet} {definitions before after : List Definition} {d : Definition}
variable {w w' w'' : World} {kept : Stages} {policy : Policy} {ca : Authority}
variable {bundle : ResourceRef} {leaf : Leaf}

/-! ### The stages of the changed definition -/

/-- A bundle lists the certificate that a signer had in an earlier world, until that expires. -/
def Retained (w w' : World) (signer bundle : ResourceRef) : Prop :=
  ∀ (s : Secret) ca, w.store.find? .secret signer = some s → s.authority = .ok ca →
    ca.info.isExpired w.clock = false →
      ∃ m, w'.store.find? .configMap bundle = some m ∧ ca.trusted ∈ Bundle.listed (some m)

/-- The signer was issued for a policy, and the objects that depend on it were written after it. Nothing
else was written, and the former certificate of the signer is still trusted. -/
structure SignerReissued (watched : NameSet) (d : Definition) (kept : Stages) (policy : Policy)
    (w w' : World) : Prop where
  logs : w.Logs watched
    ([⟨.update, .secret, d.signer⟩, ⟨.update, .secret, d.signer⟩] ++ kept.updates) w'
  issued : ∃ s : Secret, w'.store.find? .secret d.signer = some s ∧ s.IssuedFor policy.lifetime
  retained : ∀ bundle, d.bundle = some bundle → Retained w w' d.signer bundle

/-- The leaf that is kept, if there is one, was issued for a policy, and nothing else was written. -/
structure LeafReissued (watched : NameSet) (kept : Stages) (policy : Policy) (w w' : World) : Prop where
  logs : w.Logs watched kept.leafUpdates w'
  issued : ∀ bundle leaf, kept = .full bundle leaf →
    ∃ s : Secret, w'.store.find? .secret leaf.secret = some s ∧ s.IssuedFor policy.lifetime

theorem SignerSettled.authority_eq (hsettled : SignerSettled w d ca) {s : Secret} {ca' : Authority}
    (hfind : w.store.find? .secret d.signer = some s) (hca' : s.authority = .ok ca') :
  ca' = ca
  := by
  obtain ⟨s', hprepared, hcheck⟩ := hsettled
  obtain rfl := Option.some.inj (hfind.symm.trans hprepared.live)
  exact Except.ok.inj (hca'.symm.trans (SignerRequest.check_eq_ok_ok.mp hcheck).1)

/-- What is retained in a bundle is so as long as the bundle is the same. -/
theorem Retained.of_find? {signer : ResourceRef} (h : Retained w w' signer bundle)
    (hfind : w''.store.find? .configMap bundle = w'.store.find? .configMap bundle) :
  Retained w w'' signer bundle
  := by
  intro s ca hs hca hunexpired
  rw [hfind]
  apply h s ca hs hca hunexpired

/-- The bundle stage after the signer was reissued. -/
theorem leads_bundleStage_otherSigner {log : List Write} {ca' : Authority} (hlogs : w.Logs watched log w')
    (hlog : ∀ x ∈ log, x.kind ≠ .configMap) (hwatched : watched.contains bundle.ns)
    (hformed : ∀ m : ConfigMap, w.store.find? .configMap bundle = some m → m.IsAt bundle)
    (hexclusive : Exclusive definitions bundle) (hsettled : SignerSettled w d ca)
    (hkept : BundleKept definitions w bundle ca) (hca' : ca'.Loaded) (hne : ca'.certPem ≠ ca.certPem) :
  (bundleStage watched bundle ca').Leads
    (fun _ w'' => w'.Logs watched [⟨.update, .configMap, bundle⟩] w'' ∧ Retained w w'' d.signer bundle)
    (fun _ _ => True) w'
  := by
  have hfind : w'.store.find? .configMap bundle = w.store.find? .configMap bundle := by
    apply hlogs.others
    rintro x hx ⟨hkind, -⟩
    exact hlog x hx hkind.symm
  rw [← hfind] at hformed
  obtain ⟨certs, hcerts⟩ := (hkept.frame hlogs.clock hfind).settled hexclusive
  apply Procedure.safe_mono
    (leads_bundleStage_replaced hlogs.calm hwatched hformed hsettled.loaded hcerts hca' hne)
  rintro _ w'' ⟨hlogs', hretained⟩
  refine ⟨hlogs', ?_⟩
  intro s former hs hformer hunexpired
  obtain rfl := hsettled.authority_eq hs hformer
  rw [← hlogs.clock] at hunexpired
  apply hretained hunexpired

/-- The stages of a definition with another policy for its signer. -/
theorem leads_planStages_otherSigner (hw : w.Calm watched) (hcivil : w.clock.Civil)
    (hexclusive : ∀ bundle, Exclusive definitions bundle)
    (hsep : d.target ≠ some d.signer) (hstages : d.stages = .ok kept)
    (hwatched : ∀ {k ref}, d.Names k ref → watched.contains ref.ns)
    (hformed : ∀ {k ref}, d.Names k ref → ∀ o : Object k, w.store.find? k ref = some o → o.IsAt ref)
    (hkept : PlanKept definitions w (d, kept)) (hother : policy ≠ d.signerPolicy)
    (hkey : ∀ (s : Secret) ca, w.store.find? .secret d.signer = some s → s.authority = .ok ca →
      NewKeyFor w ca) :
  (planStages watched ({ d with signerPolicy := policy }, kept)).Leads
    (fun _ w' => SignerReissued watched d kept policy w w') (fun _ _ => True) w
  := by
  obtain ⟨ca, hsettled, hlater⟩ := hkept
  obtain ⟨s, hprepared, hcheck⟩ := id hsettled
  have hnew := hkey s ca hprepared.live (SignerRequest.check_eq_ok_ok.mp hcheck).1
  apply (leads_signerStage_other hw hcivil (hwatched .signer) (hformed .signer) hsettled hother hnew).bind
  rintro ca' w₁ ⟨hlogs₁, hca', hne, s', hs', hissued⟩
  have hbundle : ∀ {bundle}, d.bundle = some bundle → BundleKept definitions w bundle ca →
      (bundleStage watched bundle ca').Leads
        (fun _ w' => w₁.Logs watched [⟨.update, .configMap, bundle⟩] w' ∧ Retained w w' d.signer bundle)
        (fun _ _ => True) w₁ := by
    intro bundle hnamed hkept
    exact leads_bundleStage_otherSigner hlogs₁ (by simp) (hwatched (.bundle hnamed))
      (hformed (.bundle hnamed)) (hexclusive bundle) hsettled hkept hca' hne
  have hof := Definition.of_stages hstages
  cases kept with
  | signer =>
    apply Procedure.safe_pure
    refine ⟨hlogs₁, ⟨s', hs', hissued⟩, ?_⟩
    intro bundle hsome
    cases hsome.symm.trans hof
  | signerAndBundle bundle =>
    apply (hbundle hof.1 hlater).bind
    rintro certs w₂ ⟨hlogs₂, hretained⟩
    apply Procedure.safe_pure
    refine ⟨hlogs₁.trans hlogs₂, ⟨s', ?_, hissued⟩, ?_⟩
    · rw [hlogs₂.others (by simp), hs']
    · intro bundle' hsome
      cases hsome.symm.trans hof.1
      apply hretained
  | full bundle leaf =>
    have hleaf : leaf.secret ≠ d.signer := by
      intro hsame
      apply hsep
      rw [hof.2, hsame]
    apply (hbundle hof.1 hlater.1).bind
    rintro certs w₂ ⟨hlogs₂, hretained⟩
    have hlogs := hlogs₁.trans hlogs₂
    have hfind : w₂.store.find? .secret leaf.secret = w.store.find? .secret leaf.secret :=
      hlogs.others (by simp [hleaf])
    have hat : ∀ s : Secret, w₂.store.find? .secret leaf.secret = some s → s.IsAt leaf.secret := by
      rw [hfind]
      apply hformed (.of_stages hstages)
    apply Procedure.safe_mono (leads_leafStage_replaced certs hlogs.calm (hwatched (.of_stages hstages)) hat
      (hlater.2.frame hlogs.clock hfind) hne)
    intro _ w₃ hlogs₃
    refine ⟨hlogs.trans hlogs₃, ⟨s', ?_, hissued⟩, ?_⟩
    · rw [hlogs₃.others (by simp [hleaf.symm]), hlogs₂.others (by simp), hs']
    · intro bundle' hsome
      cases hsome.symm.trans hof.1
      apply hretained.of_find? (hlogs₃.others (by simp))

/-- The stages of a definition with another policy for its leaf. -/
theorem leads_planStages_otherLeaf (hw : w.Calm watched) (hcivil : w.clock.Civil)
    (hexclusive : ∀ bundle, Exclusive definitions bundle) (hd : d ∈ definitions)
    (hstages : d.stages = .ok kept)
    (hwatched : ∀ {k ref}, Definition.Named definitions k ref → watched.contains ref.ns)
    (hformed : ∀ {k ref}, d.Names k ref → ∀ o : Object k, w.store.find? k ref = some o → o.IsAt ref)
    (hkept : PlanKept definitions w (d, kept)) (hother : d.targetPolicy ≠ some policy) :
  (planStages watched ({ d with targetPolicy := some policy }, kept.withLeafPolicy policy)).Leads
    (fun _ w' => LeafReissued watched kept policy w w') (fun _ _ => True) w
  := by
  -- Without a leaf the stages are as they were.
  have hnothing : (∀ bundle leaf, kept ≠ .full bundle leaf) → kept.leafUpdates = [] →
      (planStages watched (d, kept)).Leads (fun _ w' => LeafReissued watched kept policy w w')
        (fun _ _ => True) w := by
    intro hnone hlog
    have hsame : (planStages watched (d, kept)).Leads (fun _ w' => w' = w) (fun _ _ => True) w :=
      leads_planStages_kept hd hstages hexclusive hwatched hw hkept
    apply Procedure.safe_mono hsame
    rintro _ w' rfl
    refine ⟨?_, fun bundle leaf hfull => absurd hfull (hnone bundle leaf)⟩
    rw [hlog]
    apply hw.logs
  cases kept with
  | signer => apply hnothing (fun _ _ hfull => by cases hfull) rfl
  | signerAndBundle bundle => apply hnothing (fun _ _ hfull => by cases hfull) rfl
  | full bundle leaf =>
    obtain ⟨ca, hsettled, hbundle, hleaf⟩ := hkept
    have hnames : d.Names .configMap bundle := .bundle (Definition.of_stages hstages).1
    have hpolicy : policy ≠ leaf.policy := by
      rintro rfl
      exact hother (Definition.targetPolicy_of_stages hstages)
    obtain ⟨certs, hcerts⟩ := hbundle.settled (hexclusive bundle)
    apply (leads_signerStage_settled hw (hwatched ⟨d, hd, .signer⟩) hsettled).bind
    rintro _ _ ⟨rfl, rfl⟩
    apply (leads_bundleStage_settled hw (hwatched ⟨d, hd, hnames⟩) hcerts).bind
    rintro certs _ ⟨rfl, rfl⟩
    apply Procedure.safe_mono (leads_leafStage_other certs hw hcivil (hwatched ⟨d, hd, .of_stages hstages⟩)
      (hformed (.of_stages hstages)) hleaf hpolicy)
    rintro _ w' ⟨hlogs, hissued⟩
    refine ⟨hlogs, ?_⟩
    rintro _ _ ⟨⟩
    apply hissued

/-! ### The other definitions -/

/-- Stages that leave the world alone come before others as if they were not there. -/
theorem leads_forM_append {stop : Stop → World → Prop} {ok : Unit → World → Prop}
    {plans todo : List Plan}
    (hplans : ∀ p ∈ plans, (planStages watched p).Leads (fun _ w' => w' = w) stop w)
    (htodo : (todo.forM (planStages watched)).Leads ok stop w) :
  ((plans ++ todo).forM (planStages watched)).Leads ok stop w
  := by
  induction plans with
  | nil => apply htodo
  | cons p plans ih =>
    apply (hplans p List.mem_cons_self).bind
    rintro _ _ rfl
    apply ih
    intro q hq
    apply hplans q (List.mem_cons_of_mem p hq)

/-- One definition is changed where everything is kept for the former ones. What the stages of the
changed one lead to is what a pass leads to, if they write nothing that is kept for the others. -/
theorem leads_sync_around {d' : Definition} {plans : List Plan} {log : List Write} {ok : World → Prop}
    (hplans : preflight watched (before ++ d :: after) = .ok plans)
    (hexclusive : ∀ bundle, Exclusive (before ++ d :: after) bundle) (hw : w.Calm watched)
    (hkept : ∀ p ∈ plans, PlanKept (before ++ d :: after) w p)
    (halone : ∀ e ∈ before ++ after, ∀ k ref, d.Names k ref → ¬ e.Names k ref)
    (hlog : ∀ x ∈ log, d.Names x.kind x.ref) (hok : ∀ w', ok w' → w.Logs watched log w')
    (hchanged : ∀ kept, d'.stages = .ok kept →
      (planStages watched (d', kept)).Leads (fun _ w' => ok w') (fun _ _ => True) w) :
  (sync watched (before ++ d' :: after)).Leads (fun _ w' => ok w') (fun _ _ => True) w
  := by
  rw [sync_eq]
  apply Procedure.safe_bind
  apply Procedure.safe_ofResult
  · intro plans' hplans'
    have hleft : ∀ p ∈ plans', p.1 ∈ before ++ after → ∀ {log' w'}, w.Logs watched log' w' →
        (∀ x ∈ log', d.Names x.kind x.ref) →
        (planStages watched p).Leads (fun _ w'' => w'' = w') (fun _ _ => True) w' := by
      rintro p hp hother log' w' hlogs hlog'
      have hmem : p.1 ∈ before ++ d :: after := Definition.mem_around.mpr (.inr hother)
      obtain ⟨-, hstages, -⟩ := mem_of_preflight hplans' hp
      obtain ⟨q, hq, hsame, hstages'⟩ := exists_plan hplans hmem
      obtain rfl : q = p := Prod.ext hsame (Except.ok.inj (hstages'.symm.trans hstages))
      apply leads_planStages_kept hmem hstages hexclusive (Definition.Named.watched hplans) hlogs.calm
      apply (hkept q hq).frame hstages hlogs.clock
      intro k ref hnames
      apply hlogs.others
      rintro x hx ⟨rfl, rfl⟩
      apply halone q.1 hother _ _ (hlog' x hx) hnames
    obtain ⟨plans₁, rest, rfl, hbefore, hrest⟩ :=
      List.map_eq_append_iff.mp (map_fst_of_preflight hplans')
    obtain ⟨⟨_, kept⟩, plans₂, rfl, rfl, hafter⟩ := List.map_eq_cons_iff.mp hrest
    obtain ⟨-, hstages, -⟩ := mem_of_preflight hplans' (List.mem_append_right _ List.mem_cons_self)
    apply leads_forM_append
    · intro p hp
      apply hleft p (List.mem_append_left _ hp) _ hw.logs
      · intro x hx
        cases hx
      · rw [← hbefore]
        apply List.mem_append_left _ (List.mem_map_of_mem hp)
    · apply (hchanged kept hstages).bind
      intro _ w₁ hw₁
      rw [← List.append_nil plans₂]
      apply leads_forM_append
      · intro p hp
        apply hleft p (List.mem_append_right _ (List.mem_cons_of_mem _ hp)) _ (hok w₁ hw₁) hlog
        rw [← hafter]
        apply List.mem_append_right _ (List.mem_map_of_mem hp)
      · apply Procedure.safe_pure
        apply hw₁
  · intro e _
    trivial

/-- After a pass that went through, one definition, no object of which is kept for another one, is given
another policy, and a pass at the same time goes through again. For another policy of the signer it
updates the signer twice, and the bundle and the leaf once each, as far as they are kept. For another
policy of the leaf it updates that twice. Nothing else is written, what is reissued is issued for the new
policy, and the bundle keeps the certificate of the former signer until that expires. For the signer this
needs that its new key is another one than before. -/
theorem policy_drift_contained (hagree : Agree (before ++ d :: after))
    (hexclusive : ∀ bundle, Exclusive (before ++ d :: after) bundle)
    (hsep : Definition.Separate (before ++ d :: after))
    (hsensible : ∀ e ∈ before ++ d :: after, Sensible e)
    (halone : ∀ e ∈ before ++ after, ∀ k ref, d.Names k ref → ¬ e.Names k ref)
    (hw : w.Calm watched) (hcivil : w.clock.Civil) (hformed : Formed (before ++ d :: after) w)
    (hrun : World.run (sync watched (before ++ d :: after)) w = (.ok (), w'))
    (hcalm : w''.Calm watched) (hclock : w''.clock = w.clock)
    (hstore : ∀ k ref, w''.store.find? k ref = w'.store.find? k ref) :
  ∃ kept, d.stages = .ok kept
    ∧ (∀ policy w₂, policy ≠ d.signerPolicy →
        (∀ (s : Secret) ca, w''.store.find? .secret d.signer = some s → s.authority = .ok ca →
          NewKeyFor w'' ca) →
        World.run (sync watched (before ++ { d with signerPolicy := policy } :: after)) w''
          = (.ok (), w₂) →
        SignerReissued watched d kept policy w'' w₂)
    ∧ (∀ policy w₂, d.targetPolicy ≠ some policy →
        World.run (sync watched (before ++ { d with targetPolicy := some policy } :: after)) w''
          = (.ok (), w₂) →
        LeafReissued watched kept policy w'' w₂)
  := by
  obtain ⟨plans, hplans, hadvances, hdone⟩ :=
    (leads_sync hagree hsep hsensible hw hformed).of_run hrun
  have hkept : ∀ p ∈ plans, PlanKept (before ++ d :: after) w'' p := by
    intro p hp
    obtain ⟨-, hstages, -⟩ := mem_of_preflight hplans hp
    apply (hdone p hp).frame hstages
    · rw [hclock, hadvances.clock]
    · intro k ref _
      apply hstore
  have hd : d ∈ before ++ d :: after := Definition.mem_around.mpr (.inl rfl)
  obtain ⟨⟨d', kept⟩, hp, hsame, hstages⟩ := exists_plan hplans hd
  obtain rfl : d = d' := hsame.symm
  have hwatched : ∀ {k ref}, Definition.Named (before ++ d :: after) k ref → watched.contains ref.ns :=
    Definition.Named.watched hplans
  have hat : ∀ {k ref}, d.Names k ref → ∀ o : Object k, w''.store.find? k ref = some o → o.IsAt ref := by
    intro k ref hnames o ho
    rw [hstore] at ho
    apply hadvances.formed ⟨d, hd, hnames⟩ o ho
  rw [← hclock] at hcivil
  refine ⟨kept, hstages, ?_, ?_⟩
  · intro policy w₂ hother hkey hsecond
    have hleads : (sync watched (before ++ { d with signerPolicy := policy } :: after)).Leads
        (fun _ w₂ => SignerReissued watched d kept policy w'' w₂) (fun _ _ => True) w'' := by
      refine leads_sync_around hplans hexclusive hcalm hkept halone ?_ (fun _ h => h.logs) ?_
      · intro x hx
        rcases List.mem_append.mp hx with hx | hx
        · obtain rfl : x = ⟨.update, .secret, d.signer⟩ := by simpa using hx
          apply Definition.Names.signer
        · apply Definition.names_of_mem_updates hstages hx
      · intro kept' hstages'
        obtain rfl := Except.ok.inj (hstages.symm.trans hstages')
        apply leads_planStages_otherSigner hcalm hcivil hexclusive (hsep.signers d hd d hd) hstages
          (fun hnames => hwatched ⟨d, hd, hnames⟩) hat (hkept _ hp) hother hkey
    apply hleads.of_run hsecond
  · intro policy w₂ hother hsecond
    have hleads : (sync watched (before ++ { d with targetPolicy := some policy } :: after)).Leads
        (fun _ w₂ => LeafReissued watched kept policy w'' w₂) (fun _ _ => True) w'' := by
      refine leads_sync_around hplans hexclusive hcalm hkept halone ?_ (fun _ h => h.logs) ?_
      · intro x
        apply Definition.names_of_mem_leafUpdates hstages
      · intro kept' hstages'
        obtain rfl := Except.ok.inj
          ((Definition.stages_withTargetPolicy policy hstages).symm.trans hstages')
        apply leads_planStages_otherLeaf hcalm hcivil hexclusive hd hstages hwatched hat (hkept _ hp)
          hother
    apply hleads.of_run hsecond

/-- Of two keys, one is new for an authority. -/
theorem exists_newKeyFor (w : World) (ca : Authority) :
  ∃ n, NewKeyFor { w with keys := n } ca
  := by
  by_contra hnone
  have hpublic : ∀ n, ∃ cert, Authority.certificate? ca.certPem = some cert
      ∧ (KeyPair.generate n).key.publicKey = cert.publicKey := by
    intro n
    have hold : Authority.keyMatches? ca.certPem (KeyPair.generate n).pem = some true := by
      by_contra hnew
      exact hnone ⟨n, hnew⟩
    simpa [Authority.keyMatches?, KeyPair.ofPem?_generate, Option.bind_eq_some_iff] using hold
  obtain ⟨cert, hcert, hzero⟩ := hpublic 0
  obtain ⟨cert', hcert', hone⟩ := hpublic 1
  obtain rfl := Option.some.inj (hcert.symm.trans hcert')
  have hdiffer : (KeyPair.generate 0).key.publicKey ≠ (KeyPair.generate 1).key.publicKey := by
    decide +kernel
  exact hdiffer (hzero.trans hone.symm)

/-- A pass over the sample definitions in an empty store, and another one for another policy of the
serving signer or of the serving leaf. -/
theorem policy_drift_contained_of_sample :
  ∃ (d e : Definition) (bundle : ResourceRef) (leaf : Leaf) (w w' w'' w₂ w₃ : World),
    Definition.sample "pki" "api" = [d, e] ∧ d.stages = .ok (.full bundle leaf)
    ∧ World.run (sync (NameSet.ofNames ["pki"]) [d, e]) w = (.ok (), w')
    ∧ (∀ k ref, w''.store.find? k ref = w'.store.find? k ref)
    ∧ World.run (sync (NameSet.ofNames ["pki"])
        [{ d with signerPolicy := Definition.sampleLeafPolicy }, e]) w'' = (.ok (), w₂)
    ∧ SignerReissued (NameSet.ofNames ["pki"]) d (.full bundle leaf) Definition.sampleLeafPolicy w'' w₂
    ∧ World.run (sync (NameSet.ofNames ["pki"])
        [{ d with targetPolicy := some Definition.sampleSignerPolicy }, e]) w'' = (.ok (), w₃)
    ∧ LeafReissued (NameSet.ofNames ["pki"]) (.full bundle leaf) Definition.sampleSignerPolicy w'' w₃
  := by
  obtain ⟨d, e, hsample⟩ : ∃ d e, Definition.sample "pki" "api" = [d, e] := ⟨_, _, rfl⟩
  obtain ⟨plans, hplans⟩ := preflight_sample (show "pki" ≠ "" by decide) (show "api" ≠ "" by decide)
  have hissuable : ∀ d ∈ Definition.sample "pki" "api", Issuable (Instant.ofSeconds 0) d :=
    issuable_sample_api 0 (by decide)
  have hshown : Shown (Instant.ofSeconds 0) := shown_ofSeconds 0
  have hagree := agree_sample "pki" "api"
  have hexclusive := exclusive_sample "pki" "api"
  have hsep := Definition.separate_sample "pki" "api"
  have hpolicies : d.signerPolicy = Definition.sampleSignerPolicy
      ∧ d.targetPolicy = some Definition.sampleLeafPolicy := by
    obtain ⟨rfl, -⟩ := List.cons.inj hsample
    exact ⟨rfl, rfl⟩
  have hdiffer : Definition.sampleLeafPolicy ≠ Definition.sampleSignerPolicy := by decide
  have hd : d ∈ Definition.sample "pki" "api" := by
    rw [hsample]
    apply List.mem_cons_self
  obtain ⟨bundle, leaf, -, hstages⟩ := Definition.stages_sample (by decide) (by decide) hd
  obtain ⟨h, w', hrun, hc, ⟨hcalm, hstore, hclock⟩, hnow, hrestored⟩ := exists_custody_sample "pki" "api"
    (by decide) (by decide) hshown hissuable
  rw [hsample] at hplans hissuable hagree hexclusive hsep hd hrun hc hrestored
  have hsignerIssuable : Issuable (Instant.ofSeconds 0)
      { d with signerPolicy := Definition.sampleLeafPolicy } :=
    (hissuable d hd).withSignerPolicy ⟨by decide, by decide⟩ (Validity.possible_ofSeconds (by decide))
  have hleafIssuable : Issuable (Instant.ofSeconds 0)
      { d with targetPolicy := some Definition.sampleSignerPolicy } :=
    (hissuable d hd).withTargetPolicy hstages ⟨by decide, by decide⟩ (Validity.possible_ofSeconds (by decide))
  obtain ⟨ca, ⟨s, hsigner⟩, -, -⟩ := hrestored d hd
  -- The next key is one that the signer does not have.
  obtain ⟨n, hnew⟩ := exists_newKeyFor w' ca
  have hcalm' : World.Calm (NameSet.ofNames ["pki"]) { w' with keys := n } :=
    ⟨hcalm.faults, hcalm.snapshot, hcalm.held, hcalm.watches, hcalm.caughtUp⟩
  have hcontinues' : h.Continues (NameSet.ofNames ["pki"]) { w' with keys := n } :=
    ⟨hcalm', hstore, hclock⟩
  have halone : ∀ c ∈ [] ++ [e], ∀ k ref, d.Names k ref → ¬ c.Names k ref := by
    rintro c hmem k ref hnames
    obtain rfl := List.mem_singleton.mp hmem
    apply alone_sample hsample hnames
  have hothers : ∀ c ∈ [] ++ [e], Issuable w'.clock c := by
    intro c hmem
    rw [hnow]
    apply hissuable c (List.mem_cons_of_mem d hmem)
  rw [← hnow] at hsignerIssuable hleafIssuable
  obtain ⟨w₂, hsecond⟩ : ∃ w₂, World.run (sync (NameSet.ofNames ["pki"])
      ([] ++ { d with signerPolicy := Definition.sampleLeafPolicy } :: [e])) { w' with keys := n }
        = (.ok (), w₂) :=
    exists_run_alike hplans hsep halone (.withSignerPolicy d _) ⟨_, hstages⟩ hothers hsignerIssuable
      hc hcontinues'
  obtain ⟨w₃, hthird⟩ : ∃ w₃, World.run (sync (NameSet.ofNames ["pki"])
      ([] ++ { d with targetPolicy := some Definition.sampleSignerPolicy } :: [e])) { w' with keys := n }
        = (.ok (), w₃) :=
    exists_run_alike hplans hsep halone (.withTargetPolicy _ hstages)
      ⟨_, Definition.stages_withTargetPolicy _ hstages⟩ hothers hleafIssuable hc hcontinues'
  have hformed : Formed [d, e] { store := Store.new ["pki"], clock := Instant.ofSeconds 0 } := by
    intro k ref _ o ho
    cases (Store.find?_new ["pki"] k ref).symm.trans ho
  obtain ⟨kept, hkept, hsignerDrift, hleafDrift⟩ := @policy_drift_contained (NameSet.ofNames ["pki"])
    [] [e] d _ w' { w' with keys := n } hagree hexclusive hsep
    (fun c hmem => (hissuable c hmem).sensible) halone (World.calm_new ["pki"] _) hshown.civil hformed
    hrun hcalm' hnow (fun _ _ => rfl)
  obtain rfl := Except.ok.inj (hstages.symm.trans hkept)
  refine ⟨d, e, bundle, leaf, _, w', { w' with keys := n }, w₂, w₃, hsample, hstages, hrun,
    fun _ _ => rfl, hsecond, ?_, hthird, ?_⟩
  · apply hsignerDrift _ w₂ _ _ hsecond
    · rw [hpolicies.1]
      apply hdiffer
    · intro s' ca' hs' hca'
      obtain rfl := Option.some.inj (hsigner.live.symm.trans hs')
      obtain rfl := Except.ok.inj (hsigner.authority.symm.trans hca')
      apply hnew
  · apply hleafDrift _ w₃ _ hthird
    rw [hpolicies.2]
    intro hsame
    exact hdiffer (Option.some.inj hsame)

end Manager

end CertKeeper
