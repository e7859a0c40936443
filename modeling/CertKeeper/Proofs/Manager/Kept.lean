import CertKeeper.Proofs.Manager.Settled

/-!
# What a pass keeps

A pass in a calm world that goes through leaves everything settled that is kept for its
definitions, and no other object changed (`Manager.leads_sync`). A stage for one definition does
not unsettle what another one has settled: either it is for other objects, or it is for the same
and finds them settled.
-/

namespace CertKeeper

namespace Manager

variable {definitions : List Definition} {watched : NameSet} {plans : List Plan} {p q : Plan}
variable {w w' w'' : World} {d : Definition} {bundle : ResourceRef} {leaf : Leaf} {ca : Authority}

/-! ### What is kept -/

/-- Definitions with the same signer have the same policy for it. -/
def Agree (definitions : List Definition) : Prop :=
  ∀ d ∈ definitions, ∀ d' ∈ definitions, d.signer = d'.signer → d.signerPolicy = d'.signerPolicy

/-- No two signers share a bundle. -/
def Exclusive (definitions : List Definition) (bundle : ResourceRef) : Prop :=
  ∀ d ∈ definitions, ∀ d' ∈ definitions,
    d.bundle = some bundle → d'.bundle = some bundle → d.signer = d'.signer

/-- The certificates of a definition last long enough. -/
structure Sensible (d : Definition) : Prop where
  signer : d.signerPolicy.Sensible
  leaf : ∀ bundle leaf, d.stages = .ok (.full bundle leaf) → leaf.policy.Sensible

/-- A bundle lists the certificate of an authority until that expires, and is settled for the
authority if no other signer shares it. -/
structure BundleKept (definitions : List Definition) (w : World) (bundle : ResourceRef)
    (ca : Authority) : Prop where
  listed : ca.info.isExpired w.clock = false →
    ∃ m, w.store.find? .configMap bundle = some m ∧ ca.trusted ∈ Bundle.listed (some m)
  settled : Exclusive definitions bundle → ∃ certs, BundleSettled w bundle ca certs

/-- What follows the signer stage has been done. -/
def StagesKept (definitions : List Definition) (w : World) (ca : Authority) : Stages → Prop
  | .signer => True
  | .signerAndBundle bundle => BundleKept definitions w bundle ca
  | .full bundle leaf => BundleKept definitions w bundle ca ∧ LeafSettled w leaf ca

/-- The stages of a definition have been done. -/
def PlanKept (definitions : List Definition) (w : World) (p : Plan) : Prop :=
  ∃ ca, SignerSettled w p.1 ca ∧ StagesKept definitions w ca p.2

/-! ### What other objects have no part in -/

theorem Prepared.frame {ref : ResourceRef} {policy : Policy} {s : Secret}
    (hfind : w'.store.find? .secret ref = w.store.find? .secret ref) (h : Prepared ref policy s w) :
  Prepared ref policy s w'
  := ⟨hfind.trans h.live, h.recorded⟩

theorem SignerSettled.frame (hclock : w'.clock = w.clock)
    (hfind : w'.store.find? .secret d.signer = w.store.find? .secret d.signer)
    (h : SignerSettled w d ca) :
  SignerSettled w' d ca
  := by
  obtain ⟨s, hprepared, hcheck⟩ := h
  rw [← hclock] at hcheck
  exact ⟨s, hprepared.frame hfind, hcheck⟩

theorem LeafSettled.frame (hclock : w'.clock = w.clock)
    (hfind : w'.store.find? .secret leaf.secret = w.store.find? .secret leaf.secret)
    (h : LeafSettled w leaf ca) :
  LeafSettled w' leaf ca
  := by
  obtain ⟨s, hprepared, hreason⟩ := h
  rw [← hclock] at hreason
  exact ⟨s, hprepared.frame hfind, hreason⟩

theorem BundleKept.frame (hclock : w'.clock = w.clock)
    (hfind : w'.store.find? .configMap bundle = w.store.find? .configMap bundle)
    (h : BundleKept definitions w bundle ca) :
  BundleKept definitions w' bundle ca
  := by
  constructor
  · rw [hclock, hfind]
    apply h.listed
  · intro hexclusive
    obtain ⟨certs, m, hm, hcerts, htext⟩ := h.settled hexclusive
    rw [← hclock] at hcerts
    exact ⟨certs, m, hfind.trans hm, hcerts, htext⟩

/-- What is kept for a definition depends on its objects and the clock only. -/
theorem PlanKept.frame (hstages : p.1.stages = .ok p.2) (hclock : w'.clock = w.clock)
    (hfind : ∀ {k ref}, p.1.Names k ref → w'.store.find? k ref = w.store.find? k ref)
    (h : PlanKept definitions w p) :
  PlanKept definitions w' p
  := by
  obtain ⟨ca, hsigner, hlater⟩ := h
  refine ⟨ca, hsigner.frame hclock (hfind .signer), ?_⟩
  obtain ⟨d, kept⟩ := p
  have hof := Definition.of_stages hstages
  cases kept with
  | signer => trivial
  | signerAndBundle bundle => apply BundleKept.frame hclock (hfind (.bundle hof.1)) hlater
  | full bundle leaf =>
    exact ⟨hlater.1.frame hclock (hfind (.bundle hof.1)),
      hlater.2.frame hclock (hfind (.of_stages hstages))⟩

/-- A signer is settled for all definitions alike. -/
theorem SignerSettled.agree {d' : Definition} (hagree : Agree definitions) (hd : d ∈ definitions)
    (hd' : d' ∈ definitions) (hsame : d.signer = d'.signer) (h : SignerSettled w d ca) :
  SignerSettled w d' ca
  := by
  have hpolicy := hagree d hd d' hd' hsame
  unfold SignerSettled at *
  rw [← hsame, ← hpolicy]
  apply h

/-- A signer is settled for one authority. -/
theorem SignerSettled.unique {ca' : Authority} (h : SignerSettled w d ca)
    (h' : SignerSettled w d ca') :
  ca = ca'
  := by
  obtain ⟨s, hprepared, hcheck⟩ := h
  obtain ⟨s', hprepared', hcheck'⟩ := h'
  obtain rfl := Option.some.inj (hprepared.live.symm.trans hprepared'.live)
  exact Except.ok.inj (Except.ok.inj (hcheck.symm.trans hcheck'))

/-! ### What a stage leaves to the other definitions -/

/-- The stages of a signer leave what is kept for the definitions. -/
theorem PlanKept.signerStage (hagree : Agree definitions) (hsep : Definition.Separate definitions)
    (hd : d ∈ definitions) (htends : w.Tends watched .secret d.signer w')
    (hleft : ∀ ca, SignerSettled w d ca → w' = w) (hq : q.1 ∈ definitions)
    (hstages : q.1.stages = .ok q.2) (h : PlanKept definitions w q) :
  PlanKept definitions w' q
  := by
  obtain ⟨ca, hsigner, hlater⟩ := h
  by_cases hsame : q.1.signer = d.signer
  · rw [hleft ca (hsigner.agree hagree hq hd hsame)]
    exact ⟨ca, hsigner, hlater⟩
  · have hbundle : ∀ {bundle}, BundleKept definitions w bundle ca →
        BundleKept definitions w' bundle ca :=
      fun h => h.frame htends.clock (htends.others (fun hkind => by cases hkind.1))
    refine ⟨ca, hsigner.frame htends.clock (htends.others (fun h => hsame h.2)), ?_⟩
    obtain ⟨d', kept⟩ := q
    cases kept with
    | signer => trivial
    | signerAndBundle bundle => apply hbundle hlater
    | full bundle leaf =>
      refine ⟨hbundle hlater.1, hlater.2.frame htends.clock (htends.others ?_)⟩
      rintro ⟨-, hleaf⟩
      apply hsep.signers d' hq d hd
      rw [(Definition.of_stages hstages).2, hleaf]

/-- The stage of a bundle leaves what is kept for the definitions. -/
theorem PlanKept.bundleStage {certs : List TrustedCertificate} (hagree : Agree definitions)
    (hd : d ∈ definitions) (hbundle : d.bundle = some bundle) (hsettled : SignerSettled w d ca)
    (htends : w.Tends watched .configMap bundle w') (hstored : BundleSettled w' bundle ca certs)
    (hmerged : certs = Bundle.merge w.clock ca.trusted
      (Bundle.listed (w.store.find? .configMap bundle)))
    (hleft : ∀ certs, BundleSettled w bundle ca certs → w' = w) (hq : q.1 ∈ definitions)
    (hstages : q.1.stages = .ok q.2) (h : PlanKept definitions w q) :
  PlanKept definitions w' q
  := by
  obtain ⟨ca', hsigner, hlater⟩ := h
  have hkept : ∀ {bundle'}, q.1.bundle = some bundle' → BundleKept definitions w bundle' ca' →
      BundleKept definitions w' bundle' ca' := by
    intro bundle' hbundle' h
    by_cases hsame : bundle' = bundle
    · subst hsame
      constructor
      · intro hunexpired
        rw [htends.clock] at hunexpired
        obtain ⟨m, hm, hlisted⟩ := h.listed hunexpired
        obtain ⟨m', rest, hm', hlist, hcerts, -⟩ := hstored.listed hsettled.loaded.genuine
        refine ⟨m', hm', ?_⟩
        rw [hlist, ← hcerts, hmerged, hm]
        apply Bundle.mem_merge hsettled.loaded.genuine (fun cert => Bundle.genuine_of_mem_listed)
          hlisted hunexpired
      · intro hexclusive
        obtain rfl : ca' = ca := (hsigner.agree hagree hq hd
          (hexclusive q.1 hq d hd hbundle' hbundle)).unique hsettled
        obtain ⟨certs', hcerts'⟩ := h.settled hexclusive
        rw [hleft certs' hcerts']
        exact ⟨certs', hcerts'⟩
    · apply h.frame htends.clock (htends.others (fun h => hsame h.2))
  have hsecret : ∀ {ref}, w'.store.find? .secret ref = w.store.find? .secret ref :=
    htends.others (fun hkind => by cases hkind.1)
  refine ⟨ca', hsigner.frame htends.clock hsecret, ?_⟩
  obtain ⟨d', kept⟩ := q
  have hof := Definition.of_stages hstages
  cases kept with
  | signer => trivial
  | signerAndBundle bundle' => apply hkept hof.1 hlater
  | full bundle' leaf => exact ⟨hkept hof.1 hlater.1, hlater.2.frame htends.clock hsecret⟩

/-- The stage of a leaf leaves what is kept for the definitions. -/
theorem PlanKept.leafStage (hsep : Definition.Separate definitions) (hd : d ∈ definitions)
    (hd' : d.stages = .ok (.full bundle leaf)) (hsettled : SignerSettled w d ca)
    (htends : w.Tends watched .secret leaf.secret w') (hleft : LeafSettled w leaf ca → w' = w)
    (hq : q.1 ∈ definitions) (hstages : q.1.stages = .ok q.2) (h : PlanKept definitions w q) :
  PlanKept definitions w' q
  := by
  obtain ⟨ca', hsigner, hlater⟩ := h
  have htarget := (Definition.of_stages hd').2
  have hbundle : ∀ {bundle}, BundleKept definitions w bundle ca' →
      BundleKept definitions w' bundle ca' :=
    fun h => h.frame htends.clock (htends.others (fun hkind => by cases hkind.1))
  refine ⟨ca', hsigner.frame htends.clock (htends.others ?_), ?_⟩
  · rintro ⟨-, hsame⟩
    apply hsep.signers d hd q.1 hq
    rw [htarget, hsame]
  · obtain ⟨d', kept⟩ := q
    cases kept with
    | signer => trivial
    | signerAndBundle bundle' => apply hbundle hlater
    | full bundle' leaf' =>
      refine ⟨hbundle hlater.1, ?_⟩
      by_cases hsame : leaf'.secret = leaf.secret
      · obtain rfl : d' = d := by
          apply hsep.targets d' hq d hd leaf.secret
          · rw [(Definition.of_stages hstages).2, hsame]
          · apply htarget
        cases hd'.symm.trans hstages
        obtain rfl := hsigner.unique hsettled
        rw [hleft hlater.2]
        apply hlater.2
      · apply hlater.2.frame htends.clock (htends.others (fun h => hsame h.2))

/-! ### A pass in a calm world -/

/-- Whatever is kept for the definitions is where it says, if it is there. -/
def Formed (definitions : List Definition) (w : World) : Prop :=
  ∀ {k ref}, Definition.Named definitions k ref →
    ∀ o : Object k, w.store.find? k ref = some o → o.IsAt ref

/-- A pass has gone on from a world to another one. -/
structure Advances (definitions : List Definition) (watched : NameSet) (w w' : World) : Prop where
  calm : w'.Calm watched
  clock : w'.clock = w.clock
  formed : Formed definitions w'
  others : ∀ {k ref}, ¬ Definition.Named definitions k ref →
    w'.store.find? k ref = w.store.find? k ref
  kept : ∀ q : Plan, q.1 ∈ definitions → q.1.stages = .ok q.2 →
    PlanKept definitions w q → PlanKept definitions w' q

theorem Advances.refl (hw : w.Calm watched) (hformed : Formed definitions w) :
  Advances definitions watched w w
  := ⟨hw, rfl, hformed, fun _ => rfl, fun _ _ _ h => h⟩

theorem Advances.trans (h : Advances definitions watched w w')
    (h' : Advances definitions watched w' w'') :
  Advances definitions watched w w''
  := by
  refine ⟨h'.calm, h'.clock.trans h.clock, h'.formed, ?_, ?_⟩
  · intro k ref hnamed
    rw [h'.others hnamed, h.others hnamed]
  · intro q hq hstages hkept
    apply h'.kept q hq hstages
    apply h.kept q hq hstages hkept

theorem Formed.tends {k : Kind} {ref : ResourceRef} (hformed : Formed definitions w)
    (htends : w.Tends watched k ref w') :
  Formed definitions w'
  := by
  intro k' ref' hnamed o ho
  by_cases hsame : k' = k ∧ ref' = ref
  · obtain ⟨rfl, rfl⟩ := hsame
    apply htends.formed o ho
  · rw [htends.others hsame] at ho
    apply hformed hnamed o ho

/-- Objects that are not kept for the definitions are others than one that is. -/
theorem others_of_named {k k' : Kind} {ref ref' : ResourceRef} (htends : w.Tends watched k ref w')
    (hnamed : Definition.Named definitions k ref) (hother : ¬ Definition.Named definitions k' ref') :
  w'.store.find? k' ref' = w.store.find? k' ref'
  := by
  apply htends.others
  rintro ⟨rfl, rfl⟩
  exact hother hnamed

theorem advances_signerStage (hagree : Agree definitions) (hsep : Definition.Separate definitions)
    (hd : d ∈ definitions) (hsensible : Sensible d) (hwatched : watched.contains d.signer.ns)
    (hw : w.Calm watched) (hformed : Formed definitions w) :
  (signerStage watched d).Leads
    (fun ca w' => Advances definitions watched w w' ∧ SignerSettled w' d ca) (fun _ _ => True) w
  := by
  have hat := @hformed _ _ ⟨d, hd, .signer⟩
  have hsettles : (signerStage watched d).Leads
      (fun ca w' => w.Tends watched .secret d.signer w' ∧ SignerSettled w' d ca)
      (fun _ _ => True) w := by
    apply leads_signerStage hw hwatched hsensible.signer hat
    · apply leads_prepareSecret d.signerPolicy hw hwatched hat
    · intros
      trivial
  apply (hsettles.and_all (fun ca => leads_signerStage_settled hw hwatched)).mono
  · rintro ca w' ⟨⟨htends, hsettled⟩, hleft⟩
    refine ⟨⟨htends.calm, htends.clock, hformed.tends htends, others_of_named htends ⟨d, hd, .signer⟩,
      ?_⟩, hsettled⟩
    intro q hq hstages
    apply PlanKept.signerStage hagree hsep hd htends (fun ca hca => (hleft ca hca).2) hq hstages
  · intros
    trivial

theorem advances_bundleStage (hagree : Agree definitions) (hd : d ∈ definitions)
    (hbundle : d.bundle = some bundle) (hwatched : watched.contains bundle.ns) (hw : w.Calm watched)
    (hformed : Formed definitions w) (hsettled : SignerSettled w d ca) :
  (bundleStage watched bundle ca).Leads
    (fun certs w' => Advances definitions watched w w' ∧ SignerSettled w' d ca
      ∧ BundleKept definitions w' bundle ca
      ∧ ∃ rest, certs = ca.trusted :: rest ∧ ∀ cert ∈ certs, cert.Genuine) (fun _ _ => True) w
  := by
  have hat := @hformed _ _ ⟨d, hd, .bundle hbundle⟩
  have hca := hsettled.loaded
  have hsettles : (bundleStage watched bundle ca).Leads
      (fun certs w' => w.Tends watched .configMap bundle w' ∧ BundleSettled w' bundle ca certs
        ∧ certs = Bundle.merge w.clock ca.trusted (Bundle.listed (w.store.find? .configMap bundle)))
      (fun _ _ => True) w := leads_bundleStage hw hwatched hat hca
  apply (hsettles.and_all (fun certs => leads_bundleStage_settled hw hwatched)).mono
  · rintro certs w' ⟨⟨htends, hstored, hmerged⟩, hleft⟩
    obtain ⟨m, rest, hm, hlist, hcerts, hgenuine⟩ := hstored.listed hca.genuine
    refine ⟨⟨htends.calm, htends.clock, hformed.tends htends,
      others_of_named htends ⟨d, hd, .bundle hbundle⟩, ?_⟩, ?_, ⟨?_, ?_⟩, rest, hcerts, hgenuine⟩
    · intro q hq hstages
      apply PlanKept.bundleStage hagree hd hbundle hsettled htends hstored hmerged
        (fun certs' hcerts' => (hleft certs' hcerts').2) hq hstages
    · apply hsettled.frame htends.clock (htends.others (fun hkind => by cases hkind.1))
    · intro _
      refine ⟨m, hm, ?_⟩
      rw [hlist]
      apply List.mem_cons_self
    · intro _
      exact ⟨certs, hstored⟩
  · intros
    trivial

theorem advances_leafStage {rest : List TrustedCertificate} (hsep : Definition.Separate definitions)
    (hd : d ∈ definitions) (hstages : d.stages = .ok (.full bundle leaf)) (hsensible : Sensible d)
    (hwatched : watched.contains leaf.secret.ns) (hw : w.Calm watched)
    (hformed : Formed definitions w) (hsettled : SignerSettled w d ca)
    (hkept : BundleKept definitions w bundle ca)
    (hgenuine : ∀ cert ∈ ca.trusted :: rest, cert.Genuine) :
  (leafStage watched leaf ca (ca.trusted :: rest)).Leads
    (fun _ w' => Advances definitions watched w w'
      ∧ PlanKept definitions w' (d, .full bundle leaf)) (fun _ _ => True) w
  := by
  have hat := @hformed _ _ ⟨d, hd, .of_stages hstages⟩
  have hpolicy := hsensible.leaf bundle leaf hstages
  have hsettles : (leafStage watched leaf ca (ca.trusted :: rest)).Leads
      (fun _ w' => w.Tends watched .secret leaf.secret w' ∧ LeafSettled w' leaf ca)
      (fun _ _ => True) w := by
    apply leads_leafStage hw hwatched hpolicy hat hgenuine
    · apply leads_prepareSecret leaf.policy hw hwatched hat
    · intros
      trivial
  have hleaves : ∀ _ : Unit, LeafSettled w leaf ca →
      (leafStage watched leaf ca (ca.trusted :: rest)).Leads (fun _ w' => w' = w)
        (fun _ _ => True) w :=
    fun _ => leads_leafStage_settled (ca.trusted :: rest) hw hwatched
  apply (hsettles.and_all hleaves).mono
  · rintro _ w' ⟨⟨htends, hleaf⟩, hleft⟩
    refine ⟨⟨htends.calm, htends.clock, hformed.tends htends,
      others_of_named htends ⟨d, hd, .of_stages hstages⟩, ?_⟩, ca, ?_, ?_, hleaf⟩
    · intro q hq hstages'
      apply PlanKept.leafStage hsep hd hstages hsettled htends (hleft ()) hq hstages'
    · apply hsettled.frame htends.clock (htends.others ?_)
      rintro ⟨-, hsame⟩
      apply hsep.signers d hd d hd
      rw [(Definition.of_stages hstages).2, hsame]
    · apply hkept.frame htends.clock (htends.others (fun hkind => by cases hkind.1))
  · intros
    trivial

/-- The stages of a definition do their work and leave that of the others. -/
theorem advances_planStages (hagree : Agree definitions) (hsep : Definition.Separate definitions)
    (hp : p.1 ∈ definitions) (hstages : p.1.stages = .ok p.2) (hsensible : Sensible p.1)
    (hwatched : ∀ {k ref}, Definition.Named definitions k ref → watched.contains ref.ns)
    (hw : w.Calm watched) (hformed : Formed definitions w) :
  (planStages watched p).Leads
    (fun _ w' => Advances definitions watched w w' ∧ PlanKept definitions w' p) (fun _ _ => True) w
  := by
  obtain ⟨d, kept⟩ := p
  apply (advances_signerStage hagree hsep hp hsensible (hwatched ⟨d, hp, .signer⟩) hw hformed).bind
  rintro ca w₁ ⟨h₁, hsettled⟩
  have hbundle : ∀ {bundle}, d.bundle = some bundle →
      (bundleStage watched bundle ca).Leads
        (fun certs w' => Advances definitions watched w₁ w' ∧ SignerSettled w' d ca
          ∧ BundleKept definitions w' bundle ca
          ∧ ∃ rest, certs = ca.trusted :: rest ∧ ∀ cert ∈ certs, cert.Genuine)
        (fun _ _ => True) w₁ :=
    fun h => advances_bundleStage hagree hp h (hwatched ⟨d, hp, .bundle h⟩) h₁.calm h₁.formed hsettled
  cases kept with
  | signer =>
    apply Procedure.safe_pure
    exact ⟨h₁, ca, hsettled, trivial⟩
  | signerAndBundle bundle =>
    apply (hbundle (Definition.of_stages hstages).1).bind
    rintro certs w₂ ⟨h₂, hsettled₂, hkept, -⟩
    apply Procedure.safe_pure
    exact ⟨h₁.trans h₂, ca, hsettled₂, hkept⟩
  | full bundle leaf =>
    apply (hbundle (Definition.of_stages hstages).1).bind
    rintro certs w₂ ⟨h₂, hsettled₂, hkept, rest, rfl, hgenuine⟩
    apply (advances_leafStage hsep hp hstages hsensible (hwatched ⟨d, hp, .of_stages hstages⟩)
      h₂.calm h₂.formed hsettled₂ hkept hgenuine).mono
    · rintro _ w₃ ⟨h₃, hdone⟩
      exact ⟨h₁.trans (h₂.trans h₃), hdone⟩
    · intros
      trivial

/-- A pass that goes through leaves everything settled. -/
theorem leads_sync (hagree : Agree definitions) (hsep : Definition.Separate definitions)
    (hsensible : ∀ d ∈ definitions, Sensible d) (hw : w.Calm watched)
    (hformed : Formed definitions w) :
  (sync watched definitions).Leads
    (fun _ w' => ∃ plans, preflight watched definitions = .ok plans
      ∧ Advances definitions watched w w' ∧ ∀ p ∈ plans, PlanKept definitions w' p)
    (fun _ _ => True) w
  := by
  apply safe_sync _ _ (.refl hw hformed)
  · intros
    trivial
  · intro plans hplans p hp w₁ h₁
    obtain ⟨hd, hstages, -⟩ := mem_of_preflight hplans hp
    apply Procedure.safe_mono (advances_planStages hagree hsep hd hstages (hsensible _ hd)
      (Definition.Named.watched hplans) h₁.calm h₁.formed)
    rintro _ w₂ ⟨h₂, hdone⟩
    refine ⟨h₁.trans h₂, hdone, ?_⟩
    intro q hq
    obtain ⟨hd', hstages', -⟩ := mem_of_preflight hplans hq
    apply h₂.kept q hd' hstages'

end Manager

end CertKeeper
