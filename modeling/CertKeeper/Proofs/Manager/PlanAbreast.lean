import CertKeeper.Proofs.Manager.Abreast

/-!
# Plans in two worlds

After the signer stage, the stages for the bundle and for the leaf are compared in two worlds that are
abreast. The authorities are twins by now. If they are new, then the bundle lists neither of them, and the
leaf was told to trust neither of them, so both worlds have the same to do. `Manager.pairs_planStages` is
the comparison of all stages of a definition, and `Manager.PlanAlike` says how far the objects of the
definition are the same afterwards.
-/

namespace CertKeeper

open World

/-- Of two certificates that a list does not have, one retains what the other one retains. -/
theorem Bundle.retained_of_not_mem {now : Instant} {present present' : TrustedCertificate}
    {existing : List TrustedCertificate} (h : ∀ cert ∈ existing, cert.pem ≠ present.pem)
    (h' : ∀ cert ∈ existing, cert.pem ≠ present'.pem) :
  retained now present' existing = retained now present existing
  := by
  rw [retained, retained]
  congr 1
  apply List.filter_congr
  intro cert hcert
  simp [sameText, (h cert hcert).symm, (h' cert hcert).symm]

namespace Manager

open Procedure

variable {watched : NameSet} {w v w' v' : World} {bundle : ResourceRef} {d : Definition} {leaf : Leaf}
variable {ca ca' : Authority} {origin : Store} {live : Option ConfigMap}
variable {rest : List TrustedCertificate} {stop : Stop → Stop → World → World → Prop}

/-! ### The bundle stage -/

/-- What the stage of a bundle comes to in two worlds: each trusts its own authority first, and the same
certificates after that. -/
structure BundledAlike (watched : NameSet) (bundle : ResourceRef) (ca ca' : Authority) (w v : World)
    (certs certs' : List TrustedCertificate) (w' v' : World) : Prop where
  paced : Paces watched (History.only .configMap bundle) w v w' v'
  certs : ∃ rest, certs = ca.trusted :: rest ∧ certs' = ca'.trusted :: rest
  bundles : ∃ m m' : ConfigMap, w'.store.find? .configMap bundle = some m
    ∧ v'.store.find? .configMap bundle = some m' ∧ BundleAlike ca ca' m m'

theorem BundledAlike.of_rests {w₁ v₁ : World} {certs certs' : List TrustedCertificate}
    (hw : w.Rests watched w₁) (hv : v.Rests watched v₁)
    (h : BundledAlike watched bundle ca ca' w₁ v₁ certs certs' w' v') :
  BundledAlike watched bundle ca ca' w v certs certs' w' v'
  := ⟨(Paces.of_rests hw hv).trans h.paced, h.certs, h.bundles⟩

/-- The publication of two bundles ends with the events. -/
theorem pairs_reported (ha : Abreast watched w v) {verb : WriteVerb} {reason action note note' : String}
    (hwrote : w.Wrote watched verb bundle (Bundle.rewritten bundle live (ca.trusted :: rest)) w')
    (hwrote' : v.Wrote watched verb bundle (Bundle.rewritten bundle live (ca'.trusted :: rest)) v') :
  Pairs
    (do
      Procedure.publish (w.store.stamped bundle.ns (Bundle.rewritten bundle live (ca.trusted :: rest)))
        reason action note
      return ca.trusted :: rest)
    (do
      Procedure.publish (v.store.stamped bundle.ns (Bundle.rewritten bundle live (ca'.trusted :: rest)))
        reason action note'
      return ca'.trusted :: rest)
    (BundledAlike watched bundle ca ca' w v) stop w' v'
  := by
  have hpaced : Paces watched (History.only .configMap bundle) w v w' v' := .of_wrote hwrote hwrote'
  apply pairs_bind
  apply pairs_publish (hpaced.abreast ha)
  intro w₂ v₂ hrests hrests'
  apply pairs_pure
  refine ⟨.of_wrote (hwrote.rests hrests) (hwrote'.rests hrests'), ⟨rest, rfl, rfl⟩, _, _,
    (hwrote.rests hrests).find?_self, (hwrote'.rests hrests').find?_self, ?_⟩
  exact .updated rfl rfl rfl

/-- A bundle has the text of some certificates. -/
def Current (bundle : ResourceRef) (live : Option ConfigMap) (certs : List TrustedCertificate) : Prop :=
  live.isSome ∧ encodeBundle certs = ((live.getD (ConfigMap.new bundle)).text? EntryKey.bundle).getD ""

/-- A bundle that does not list an authority is not up to date for it. -/
theorem not_current_of_unlisted (bundle : ResourceRef) (now : Instant) (hca : ca.trusted.Genuine)
    (hunlisted : ∀ cert ∈ Bundle.listed live, cert.pem ≠ ca.certPem) :
  ¬ Current bundle live (ca.trusted :: Bundle.retained now ca.trusted (Bundle.listed live))
  := by
  rintro ⟨hsome, htext⟩
  obtain ⟨m, rfl⟩ := Option.isSome_iff_exists.mp hsome
  rw [← Bundle.merge_eq] at htext
  exact hunlisted _ (Bundle.mem_listed_of_current hca htext) rfl

/-- Renewed authorities retain the same certificates of a bundle. -/
theorem retained_of_renewed (hca : ca.Renewed origin ca') (horigin : origin.find? .configMap bundle = live)
    (now : Instant) :
  Bundle.retained now ca'.trusted (Bundle.listed live) = Bundle.retained now ca.trusted (Bundle.listed live)
  := by
  cases hca with
  | kept => rfl
  | made _ hunlisted hunlisted' =>
    rw [← horigin]
    apply Bundle.retained_of_not_mem (hunlisted.bundles bundle) (hunlisted'.bundles bundle)

/-- A bundle is up to date for both of two renewed authorities, or for none of them. -/
theorem current_iff_of_renewed (hca : ca.Renewed origin ca')
    (horigin : origin.find? .configMap bundle = live) (now : Instant) :
  Current bundle live (ca'.trusted :: Bundle.retained now ca'.trusted (Bundle.listed live))
    ↔ Current bundle live (ca.trusted :: Bundle.retained now ca.trusted (Bundle.listed live))
  := by
  cases hca with
  | kept => rfl
  | made hmade hunlisted hunlisted' =>
    have hleft := hunlisted.bundles bundle
    have hright := hunlisted'.bundles bundle
    rw [horigin] at hleft hright
    have hstale := not_current_of_unlisted bundle now hmade.sound.1.loaded.genuine hleft
    have hstale' := not_current_of_unlisted bundle now hmade.sound.2.loaded.genuine hright
    exact ⟨fun h => absurd h hstale', fun h => absurd h hstale⟩

/-- In two worlds with the same bundle, renewed authorities publish it alike. -/
theorem pairs_publishBundle (ha : Abreast watched w v) (hwatched : watched.contains bundle.ns)
    (hlive : w.store.find? .configMap bundle = live) (hlive' : v.store.find? .configMap bundle = live)
    (hname : ∀ m ∈ live, m.name = bundle.name) (hca : ca.Renewed origin ca')
    (horigin : origin.find? .configMap bundle = live) :
  Pairs (Bundle.publish bundle ca live) (Bundle.publish bundle ca' live)
    (BundledAlike watched bundle ca ca' w v) stop w v
  := by
  apply pairs_bind
  apply pairs_clock ha
  have hcurrent := current_iff_of_renewed hca horigin w.clock
  rw [retained_of_renewed hca horigin] at hcurrent
  simp only [Bundle.listed_eq, Bundle.merge_eq, retained_of_renewed hca horigin]
  generalize Bundle.retained w.clock ca.trusted (Bundle.listed live) = rest at *
  unfold Current at hcurrent
  by_cases hkept : live.isSome ∧ encodeBundle (ca.trusted :: rest)
      = ((live.getD (ConfigMap.new bundle)).text? EntryKey.bundle).getD ""
  · obtain ⟨m, rfl⟩ := Option.isSome_iff_exists.mp hkept.1
    rw [if_pos hkept, if_pos (hcurrent.mpr hkept)]
    apply pairs_pure
    exact ⟨.refl ha, ⟨rest, rfl, rfl⟩, m, m, hlive, hlive', .kept (.refl m)⟩
  · rw [if_neg hkept, if_neg (fun h => hkept (hcurrent.mp h))]
    have hnamed : ∀ certs, (Bundle.rewritten bundle live certs).name = bundle.name := by
      intro certs
      cases live with
      | some m => apply hname m rfl
      | none => rfl
    cases live with
    | some m =>
      apply pairs_bind
      apply pairs_update ha hwatched (hnamed (ca.trusted :: rest)) (hnamed (ca'.trusted :: rest)) hlive
        hlive' rfl rfl
      intro w₁ v₁ hwrote hwrote'
      apply pairs_reported ha hwrote hwrote'
    | none =>
      apply pairs_bind
      apply pairs_create ha hwatched (hnamed (ca.trusted :: rest)) (hnamed (ca'.trusted :: rest)) hlive
        hlive'
      intro w₁ v₁ hwrote hwrote'
      apply pairs_reported ha hwrote hwrote'

/-- In two worlds with the same bundle, renewed authorities are made known alike. -/
theorem pairs_bundleStage (ha : Abreast watched w v) (hwatched : watched.contains bundle.ns)
    (hlive : w.store.find? .configMap bundle = live) (hlive' : v.store.find? .configMap bundle = live)
    (hname : ∀ m ∈ live, m.name = bundle.name) (hca : ca.Renewed origin ca')
    (horigin : origin.find? .configMap bundle = live) :
  Pairs (bundleStage watched bundle ca) (bundleStage watched bundle ca')
    (BundledAlike watched bundle ca ca' w v) stop w v
  := by
  rw [bundleStage_eq hwatched, bundleStage_eq hwatched, Bundle.ensure_eq, Bundle.ensure_eq]
  apply pairs_bind
  apply pairs_bind
  apply pairs_cached ha hwatched
  rw [hlive, hlive']
  cases live with
  | some m =>
    apply pairs_pure
    apply pairs_tryCatch
    apply pairs_publishBundle ha hwatched hlive hlive' hname hca horigin
  | none =>
    apply pairs_find ha
    intro w₁ v₁ hrests hrests'
    rw [hlive, hlive']
    apply pairs_tryCatch
    apply (pairs_publishBundle (ha.rests hrests hrests') hwatched _ _ hname hca horigin).mono
    · intro certs certs' w₂ v₂ hbundled
      apply hbundled.of_rests hrests hrests'
    · intro e e' w₂ v₂ hstop
      apply hstop
    · rw [hrests.store, hlive]
    · rw [hrests'.store, hlive']

/-! ### The leaf stage -/

/-- Prepared secrets are akin if the live ones were. -/
theorem ReadiedAlike.akin {ref : ResourceRef} {s s' : Secret} (h : ReadiedAlike watched ref w v s s' w' v')
    (hlive : Option.Rel (Secret.Akin ca ca') (w.store.find? .secret ref) (v.store.find? .secret ref)) :
  Secret.Akin ca ca' s s'
  := by
  refine ⟨h.metadata, ?_⟩
  rw [h.content, h.content', heldAt, heldAt]
  generalize w.store.find? .secret ref = copy at *
  generalize v.store.find? .secret ref = copy' at *
  cases hlive with
  | none => exact .inl rfl
  | some hakin => apply hakin.content

/-- What the stage of a leaf comes to in two worlds. -/
structure FiledAlike (watched : NameSet) (leaf : Leaf) (ca ca' : Authority) (w v w' v' : World) : Prop where
  paced : Paces watched (History.only .secret leaf.secret) w v w' v'
  leaves : ∃ s s' : Secret, w'.store.find? .secret leaf.secret = some s
    ∧ v'.store.find? .secret leaf.secret = some s' ∧ LeafAlike leaf w.clock ca ca' s s'

/-- In two worlds twins issue a leaf certificate alike, unless neither of them can. -/
theorem pairs_rotateLeaf {s s' : Secret} (ha : Abreast watched w v)
    (hwatched : watched.contains leaf.secret.ns)
    (h : ReadiedAlike watched leaf.secret w v s s' w' v') (hca : ca.Twins ca')
    (hakin : Secret.Akin ca ca' s s') (reason : LeafStage.Reason) {known known' : Option Secret} :
  Pairs
    (LeafStage.rotate ⟨leaf.secret, leaf.policy, leafRequest leaf, known⟩ s ca (ca.trusted :: rest)
      reason)
    (LeafStage.rotate ⟨leaf.secret, leaf.policy, leafRequest leaf, known'⟩ s' ca' (ca'.trusted :: rest)
      reason)
    (fun _ _ => FiledAlike watched leaf ca ca' w v) (fun _ _ _ _ => True) w' v'
  := by
  have ha' := h.paced.abreast ha
  have hclock := ha'.clock
  apply Pairs.mono (pairs_of_agree
    (leads_replaceLeaf ha'.left hwatched h.live h.named _ reason (fun hnone _ _ => hnone))
    (leads_replaceLeaf ha'.right hwatched h.live' h.named' _ reason (fun hnone _ _ => hnone)) _ _)
  · rintro _ _ w₁ v₁ ⟨⟨issued, hsign, hwrote⟩, issued', hsign', hwrote'⟩
    rw [hclock, h.paced.clock] at hsign'
    rw [h.paced.clock] at hsign
    obtain ⟨issued'', hsign'', hinfo⟩ := hca.exists_sign hsign v'.keys
    cases hsign'.symm.trans hsign''
    obtain ⟨base, hbase⟩ := hakin.exists_base
    refine ⟨h.paced.trans (.of_wrote hwrote hwrote'), _, _, hwrote.find?_self, hwrote'.find?_self, ?_⟩
    apply LeafAlike.issued base rest ⟨_, _, hsign, hsign', hinfo⟩
    · apply Metadata.SameAs.stamped
      apply LeafStage.metadata_filled h.metadata hca.info hinfo
    · rw [Object.content_stamped, LeafStage.content_filled]
      apply Secret.content_withText (hbase _ _).1
    · rw [Object.content_stamped, LeafStage.content_filled]
      apply Secret.content_withText (hbase _ _).2
  · intros
    trivial
  -- One twin can issue a certificate if the other one can.
  · rintro _ e w₁ v₁ ⟨issued, hsign, -⟩ hnone
    obtain ⟨issued', hsign', -⟩ := hca.exists_sign hsign v'.keys
    rw [← hclock] at hsign'
    exact hnone issued' hsign'
  · rintro e _ w₁ v₁ hnone ⟨issued', hsign', -⟩
    rw [hclock] at hsign'
    obtain ⟨issued, hsign, -⟩ := hca.symm.exists_sign hsign' w'.keys
    exact hnone issued hsign

/-- In two worlds with akin leaves, the stage of the leaf comes to the same for renewed authorities. -/
theorem pairs_leafStage (ha : Abreast watched w v) (hwatched : watched.contains leaf.secret.ns)
    (hca : ca.Renewed origin ca')
    (hlive : Option.Rel (Secret.Akin ca ca') (w.store.find? .secret leaf.secret)
      (v.store.find? .secret leaf.secret))
    (hnamed : ∀ s : Secret, w.store.find? .secret leaf.secret = some s → s.name = leaf.secret.name)
    (htold : (w.store.find? .secret leaf.secret).bind LeafStage.publishedAuthority?
      = (origin.find? .secret leaf.secret).bind LeafStage.publishedAuthority?) :
  Pairs (leafStage watched leaf ca (ca.trusted :: rest)) (leafStage watched leaf ca' (ca'.trusted :: rest))
    (fun _ _ => FiledAlike watched leaf ca ca' w v) (fun _ _ _ _ => True) w v
  := by
  have hsame : LiveAlike leaf.secret w v := by
    refine ⟨?_, hnamed⟩
    generalize w.store.find? .secret leaf.secret = copy at *
    generalize v.store.find? .secret leaf.secret = copy' at *
    cases hlive with
    | none => exact .none
    | some hakin => exact .some hakin.metadata
  apply pairs_bind
  apply (pairs_prepareSecret ha hwatched leaf.policy hsame).mono
  · intro s s' w₁ v₁ h
    have ha₁ := h.paced.abreast ha
    have hakin := h.akin hlive
    have htold₁ := (publishedAuthority?_of_heldAt h.content).trans htold
    rw [LeafStage.ensure_eq rfl, LeafStage.ensure_eq rfl]
    apply pairs_bind
    apply pairs_clock ha₁
    rw [LeafStage.reason?_of_akin (some s) (some s') hca hakin htold₁]
    apply pairs_bind
    apply pairs_ofComputation
    · intro found hfound
      cases found with
      | none =>
        apply pairs_pure
        exact ⟨h.paced, s, s', h.live, h.live',
          .kept (LeafStage.sameAs_of_reason?_eq_none hca hakin htold₁ hfound)⟩
      | some reason => apply pairs_rotateLeaf ha hwatched h hca.twins hakin reason
    · intros
      trivial
  · intro e e' w₁ v₁ hstop
    cases hstop

/-! ### All stages of a definition -/

/-- The secrets of a signer hold two authorities, and are the same but for these. -/
def SignerAlike (ref : ResourceRef) (ca ca' : Authority) (s t : Store) : Prop :=
  ∃ o o' : Secret, s.find? .secret ref = some o ∧ t.find? .secret ref = some o'
    ∧ o.authority = .ok ca ∧ o'.authority = .ok ca' ∧ Secret.Akin ca ca' o o'

/-- The objects of a definition are the same but for their versions, for the certificates and keys of two
authorities, and for those of a leaf that these have issued. A leaf may be kept in the place of the
signer. -/
structure StagesAlike (now : Instant) (p : Plan) (ca ca' : Authority) (s t : Store) : Prop where
  twins : ca.Twins ca'
  signer : (∀ bundle leaf, p.2 = .full bundle leaf → leaf.secret ≠ p.1.signer) →
    SignerAlike p.1.signer ca ca' s t
  bundle : ∀ bundle, p.1.bundle = some bundle → ∃ m m' : ConfigMap, s.find? .configMap bundle = some m
    ∧ t.find? .configMap bundle = some m' ∧ BundleAlike ca ca' m m'
  leaf : ∀ bundle leaf, p.2 = .full bundle leaf → ∃ o o' : Secret, s.find? .secret leaf.secret = some o
    ∧ t.find? .secret leaf.secret = some o' ∧ LeafAlike leaf now ca ca' o o'

/-- In two stores the objects of a definition are the same but for versions and for what is new. -/
def PlanAlike (now : Instant) (s t : Store) (p : Plan) : Prop :=
  ∃ ca ca', StagesAlike now p ca ca' s t

variable {p : Plan}

/-- Only the objects of a definition count for whether they are the same. -/
theorem PlanAlike.of_find? {now : Instant} {s s' t t' : Store} (h : PlanAlike now s t p)
    (hstages : p.1.stages = .ok p.2)
    (hs : ∀ {k ref}, p.1.Names k ref → s'.find? k ref = s.find? k ref)
    (ht : ∀ {k ref}, p.1.Names k ref → t'.find? k ref = t.find? k ref) :
  PlanAlike now s' t' p
  := by
  obtain ⟨ca, ca', hca⟩ := h
  refine ⟨ca, ca', hca.twins, ?_, ?_, ?_⟩
  · rw [SignerAlike, hs .signer, ht .signer]
    apply hca.signer
  · intro bundle hbundle
    rw [hs (.bundle hbundle), ht (.bundle hbundle)]
    apply hca.bundle bundle hbundle
  · intro bundle leaf hkept
    rw [hkept] at hstages
    rw [hs (.of_stages hstages), ht (.of_stages hstages)]
    apply hca.leaf bundle leaf hkept

/-- A plan is for watched objects that have the names of their places, where a store has them. -/
structure Fit (watched : NameSet) (origin : Store) (p : Plan) : Prop where
  stages : p.1.stages = .ok p.2
  watched : ∀ {k ref}, p.1.Names k ref → watched.contains ref.ns
  named : ∀ {k ref} {o : Object k}, p.1.Names k ref → origin.find? k ref = some o → o.name = ref.name

/-- A calm world has the objects of a plan as an original world has them, and the key to be made next is
new to that one. -/
structure Awaits (watched : NameSet) (origin : World) (p : Plan) (w : World) : Prop where
  calm : w.Calm watched
  clock : w.clock = origin.clock
  objects : ∀ {k ref}, p.1.Names k ref → w.store.find? k ref = origin.store.find? k ref
  new : (KeyPair.generate w.keys).NewIn origin.store

theorem Awaits.abreast {origin : World} (hw : Awaits watched origin p w) (hv : Awaits watched origin p v) :
  Abreast watched w v
  := ⟨hw.calm, hv.calm, hv.clock.trans hw.clock.symm⟩

namespace SignedAlike

variable {ref place : ResourceRef}

theorem signer (hs : SignedAlike watched origin ref w v ca ca' w' v') :
  SignerAlike ref ca ca' w'.store v'.store
  := by
  obtain ⟨s, s', hlive, hlive', -, hauthority, hauthority', hakin, -⟩ := hs.secrets
  exact ⟨s, s', hlive, hlive', hauthority, hauthority', hakin⟩

/-- After the signer stage, a secret is akin in both worlds, has its name, and says to trust what it said
before. -/
theorem akin (hs : SignedAlike watched origin ref w v ca ca' w' v')
    (hw : w.store.find? .secret place = origin.find? .secret place)
    (hv : v.store.find? .secret place = origin.find? .secret place)
    (hname : ∀ s : Secret, origin.find? .secret place = some s → s.name = place.name) :
  Option.Rel (Secret.Akin ca ca') (w'.store.find? .secret place) (v'.store.find? .secret place)
    ∧ (∀ s : Secret, w'.store.find? .secret place = some s → s.name = place.name)
    ∧ (w'.store.find? .secret place).bind LeafStage.publishedAuthority?
      = (origin.find? .secret place).bind LeafStage.publishedAuthority?
  := by
  by_cases hplace : place = ref
  · obtain rfl := hplace
    obtain ⟨s, s', hlive, hlive', hnamed, -, -, hakin, htold⟩ := hs.secrets
    rw [hlive, hlive', ← hw]
    refine ⟨.some hakin, ?_, htold⟩
    intro s hs
    cases hs
    apply hnamed
  · obtain ⟨hkept, hkept'⟩ := hs.paced.find?_of_not .secret place (fun h => hplace h.2)
    rw [hkept, hkept', hw, hv]
    refine ⟨?_, hname, rfl⟩
    cases origin.find? .secret place with
    | none => exact .none
    | some s => exact .some (.of_sameAs (.refl s))

end SignedAlike

section Stages

variable {origin : World} {kept : Stages}

/-- After a signer stage the bundle of the definition is published alike. -/
theorem pairs_bundleStage_of_signed (hp : Fit watched origin.store (d, kept))
    (hw : Awaits watched origin (d, kept) w) (hv : Awaits watched origin (d, kept) v)
    (hs : SignedAlike watched origin.store d.signer w v ca ca' w' v') (hbundle : d.bundle = some bundle) :
  Pairs (bundleStage watched bundle ca) (bundleStage watched bundle ca')
    (BundledAlike watched bundle ca ca' w' v') stop w' v'
  := by
  have hnames : d.Names .configMap bundle := .bundle hbundle
  obtain ⟨hkept, hkept'⟩ := hs.paced.find?_of_not .configMap bundle (fun h => by cases h.1)
  apply pairs_bundleStage (hs.paced.abreast (hw.abreast hv)) (hp.watched hnames) _ _ _ hs.renewed rfl
  · rw [hkept, hw.objects hnames]
  · rw [hkept', hv.objects hnames]
  · intro m hm
    apply hp.named hnames hm

/-- After the signer and the bundle stages the leaf of the definition is issued alike. -/
theorem pairs_leafStage_of_signed {w'' v'' : World} {certs certs' : List TrustedCertificate}
    (hp : Fit watched origin.store (d, .full bundle leaf))
    (hw : Awaits watched origin (d, .full bundle leaf) w)
    (hv : Awaits watched origin (d, .full bundle leaf) v)
    (hs : SignedAlike watched origin.store d.signer w v ca ca' w' v')
    (hb : BundledAlike watched bundle ca ca' w' v' certs certs' w'' v'') :
  Pairs (leafStage watched leaf ca certs) (leafStage watched leaf ca' certs')
    (fun _ _ => FiledAlike watched leaf ca ca' w'' v'') (fun _ _ _ _ => True) w'' v''
  := by
  have hnames : d.Names .secret leaf.secret := .of_stages hp.stages
  obtain ⟨rest, rfl, rfl⟩ := hb.certs
  obtain ⟨hakin, hnamed, htold⟩ := hs.akin (hw.objects hnames) (hv.objects hnames) (fun s => hp.named hnames)
  obtain ⟨hkept, hkept'⟩ := hb.paced.find?_of_not .secret leaf.secret (fun h => by cases h.1)
  apply pairs_leafStage (hb.paced.abreast (hs.paced.abreast (hw.abreast hv))) (hp.watched hnames)
    hs.renewed
  · rw [hkept, hkept']
    apply hakin
  · rw [hkept]
    apply hnamed
  · rw [hkept]
    apply htold

/-- After the signer stage, what the other stages come to is the same. -/
theorem pairs_laterStages (hp : Fit watched origin.store (d, kept))
    (hw : Awaits watched origin (d, kept) w) (hv : Awaits watched origin (d, kept) v)
    (hs : SignedAlike watched origin.store d.signer w v ca ca' w' v') :
  Pairs (laterStages watched ca kept) (laterStages watched ca' kept)
    (fun _ _ w'' v'' => Paces watched d.Names w v w'' v''
      ∧ PlanAlike origin.clock w''.store v''.store (d, kept))
    (fun _ _ _ _ => True) w' v'
  := by
  have honly : ∀ {k ref}, d.Names k ref → ∀ {k' ref'}, History.only k ref k' ref' → d.Names k' ref' := by
    rintro k ref hnames _ _ ⟨rfl, rfl⟩
    apply hnames
  have hpaced := hs.paced.mono (honly .signer)
  have htwins := hs.renewed.twins
  have hstages := hp.stages
  cases kept with
  | signer =>
    have hnone := Definition.of_stages hstages
    apply pairs_pure
    refine ⟨hpaced, ca, ca', htwins, fun _ => hs.signer, ?_, ?_⟩
    · intro bundle hbundle
      cases hnone.symm.trans hbundle
    · intro bundle leaf hkept
      cases hkept
  | signerAndBundle bundle =>
    have hbundle := (Definition.of_stages hstages).1
    apply pairs_bind
    apply (pairs_bundleStage_of_signed hp hw hv hs hbundle).mono
    · intro certs certs' w₂ v₂ hb
      obtain ⟨hkept, hkept'⟩ := hb.paced.find?_of_not .secret d.signer (fun h => by cases h.1)
      apply pairs_pure
      refine ⟨hpaced.trans (hb.paced.mono (honly (.bundle hbundle))), ca, ca', htwins, ?_, ?_, ?_⟩
      · intro _
        rw [SignerAlike, hkept, hkept']
        apply hs.signer
      · intro bundle' hbundle'
        cases hbundle.symm.trans hbundle'
        apply hb.bundles
      · intro bundle leaf hkept
        cases hkept
    · intro e e' w₂ v₂ hstop
      apply hstop
  | full bundle leaf =>
    have hbundle := (Definition.of_stages hstages).1
    apply pairs_bind
    apply (pairs_bundleStage_of_signed hp hw hv hs hbundle).mono
    · intro certs certs' w₂ v₂ hb
      obtain ⟨hkept, hkept'⟩ := hb.paced.find?_of_not .secret d.signer (fun h => by cases h.1)
      apply (pairs_leafStage_of_signed hp hw hv hs hb).mono
      · intro _ _ w₃ v₃ hl
        refine ⟨hpaced.trans ((hb.paced.mono (honly (.bundle hbundle))).trans
          (hl.paced.mono (honly (.of_stages hstages)))), ca, ca', htwins, ?_, ?_, ?_⟩
        · intro hapart
          obtain ⟨hleft, hright⟩ := hl.paced.find?_of_not .secret d.signer
            (fun h => hapart bundle leaf rfl h.2.symm)
          rw [SignerAlike, hleft, hright, hkept, hkept']
          apply hs.signer
        · intro bundle' hbundle'
          cases hbundle.symm.trans hbundle'
          obtain ⟨hleft, hright⟩ := hl.paced.find?_of_not .configMap bundle (fun h => by cases h.1)
          rw [hleft, hright]
          apply hb.bundles
        · intro bundle' leaf' hsame
          cases hsame
          rw [← hw.clock, ← hs.paced.clock, ← hb.paced.clock]
          apply hl.leaves
      · intro e e' w₃ v₃ hstop
        apply hstop
    · intro e e' w₂ v₂ hstop
      apply hstop

/-- In two worlds that await a plan, its stages come to the same, but for versions and for new
certificates and keys. -/
theorem pairs_planStages (hp : Fit watched origin.store p) (hw : Awaits watched origin p w)
    (hv : Awaits watched origin p v) :
  Pairs (planStages watched p) (planStages watched p)
    (fun _ _ w' v' => Paces watched p.1.Names w v w' v' ∧ PlanAlike origin.clock w'.store v'.store p)
    (fun _ _ _ _ => True) w v
  := by
  have hsame : v.store.find? .secret p.1.signer = w.store.find? .secret p.1.signer := by
    rw [hv.objects .signer, hw.objects .signer]
  have hnamed : ∀ s : Secret, w.store.find? .secret p.1.signer = some s → s.name = p.1.signer.name := by
    intro s hs
    rw [hw.objects .signer] at hs
    apply hp.named .signer hs
  apply pairs_bind
  apply (pairs_signerStage (hw.abreast hv) (hp.watched .signer) hsame hnamed hw.new hv.new).mono
  · intro ca ca' w₁ v₁ hs
    apply pairs_laterStages hp hw hv hs
  · intro e e' w₁ v₁ hstop
    apply hstop

end Stages

end Manager

end CertKeeper
