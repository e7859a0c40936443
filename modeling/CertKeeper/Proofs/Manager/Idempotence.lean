import CertKeeper.Proofs.Definition.Sample

/-!
# Passes are idempotent

A pass in a calm world that goes through leaves everything settled that is kept for its
definitions, and a stage whose object is settled leaves the world exactly as it is. So the same
pass has nothing left to do once more at the same time (`Manager.sync_idempotent`).
-/

namespace CertKeeper

namespace Manager

variable {definitions : List Definition} {watched : NameSet} {plans : List Plan} {p : Plan}
variable {w w' w'' : World}

/-- The stages of a definition leave the world alone if they have been done. -/
theorem leads_planStages_kept {stop : Stop → World → Prop} (hp : p.1 ∈ definitions)
    (hstages : p.1.stages = .ok p.2) (hexclusive : ∀ bundle, Exclusive definitions bundle)
    (hwatched : ∀ {k ref}, Definition.Named definitions k ref → watched.contains ref.ns)
    (hw : w.Calm watched) (hkept : PlanKept definitions w p) :
  (planStages watched p).Leads (fun _ w' => w' = w) stop w
  := by
  obtain ⟨d, kept⟩ := p
  obtain ⟨ca, hsettled, hlater⟩ := hkept
  have hbundle : ∀ {bundle}, d.bundle = some bundle → BundleKept definitions w bundle ca →
      (bundleStage watched bundle ca).Leads (fun _ w' => w' = w) stop w := by
    intro bundle hbundle hkept
    obtain ⟨certs, hcerts⟩ := hkept.settled (hexclusive bundle)
    apply (leads_bundleStage_settled hw (hwatched ⟨d, hp, .bundle hbundle⟩) hcerts).mono
    · rintro _ w' ⟨-, hsame⟩
      apply hsame
    · intro e w' he
      apply he
  apply (leads_signerStage_settled hw (hwatched ⟨d, hp, .signer⟩) hsettled).bind
  rintro _ _ ⟨rfl, rfl⟩
  cases kept with
  | signer =>
    apply Procedure.safe_pure
    rfl
  | signerAndBundle bundle =>
    apply (hbundle (Definition.of_stages hstages).1 hlater).bind
    rintro certs _ rfl
    apply Procedure.safe_pure
    rfl
  | full bundle leaf =>
    apply (hbundle (Definition.of_stages hstages).1 hlater.1).bind
    rintro certs _ rfl
    apply leads_leafStage_settled certs hw (hwatched ⟨d, hp, .of_stages hstages⟩) hlater.2

/-- A pass with nothing to do leaves the world alone. -/
theorem leads_sync_kept {stop : Stop → World → Prop}
    (hplans : preflight watched definitions = .ok plans)
    (hexclusive : ∀ bundle, Exclusive definitions bundle) (hw : w.Calm watched)
    (hkept : ∀ p ∈ plans, PlanKept definitions w p) :
  (sync watched definitions).Leads (fun _ w' => w' = w) stop w
  := by
  apply safe_sync_keeps
  · intro e he
    cases hplans.symm.trans he
  · rintro plans' hplans' p hp _ rfl
    cases hplans.symm.trans hplans'
    obtain ⟨hd, hstages, -⟩ := mem_of_preflight hplans hp
    apply leads_planStages_kept hd hstages hexclusive (Definition.Named.watched hplans) hw (hkept p hp)
  · rfl

/-- A pass that goes through in a calm world, whatever that has stored, is followed by nothing: the
same pass at the same time, over the objects as they are then, changes nothing in the world. -/
theorem sync_idempotent (hagree : Agree definitions)
    (hexclusive : ∀ bundle, Exclusive definitions bundle) (hsep : Definition.Separate definitions)
    (hsensible : ∀ d ∈ definitions, Sensible d) (hw : w.Calm watched)
    (hformed : Formed definitions w) (hrun : World.run (sync watched definitions) w = (.ok (), w'))
    (hcalm : w''.Calm watched) (hclock : w''.clock = w.clock)
    (hstore : ∀ k ref, w''.store.find? k ref = w'.store.find? k ref) :
  World.run (sync watched definitions) w'' = (.ok (), w'')
  := by
  have hfirst := Procedure.leads_iff.mp (leads_sync hagree hsep hsensible hw hformed)
  rw [hrun] at hfirst
  obtain ⟨plans, hplans, hadvances, hkept⟩ := hfirst
  have hkept' : ∀ p ∈ plans, PlanKept definitions w'' p := by
    intro p hp
    obtain ⟨-, hstages, -⟩ := mem_of_preflight hplans hp
    apply (hkept p hp).frame hstages
    · rw [hclock, hadvances.clock]
    · intro k ref _
      apply hstore
  have hnothing : (sync watched definitions).Leads (fun _ w => w = w'') (fun _ _ => False) w'' :=
    leads_sync_kept hplans hexclusive hcalm hkept'
  obtain ⟨_, _, hsecond, rfl⟩ := hnothing.exists_run
  exact hsecond

/-- A pass over the sample definitions in an empty store, and the same pass again. -/
theorem sync_idempotent_of_sample :
  ∃ w w', World.run (sync (NameSet.ofNames ["pki"]) (Definition.sample "pki" "api")) w = (.ok (), w')
    ∧ World.run (sync (NameSet.ofNames ["pki"]) (Definition.sample "pki" "api")) w' = (.ok (), w')
  := by
  have hissuable := issuable_sample_api 0 (by decide)
  obtain ⟨w', hrun, hcalm, hclock, -⟩ := exists_run_sample "pki" "api" (by decide) (by decide)
    (shown_ofSeconds 0) hissuable
  have hformed : Formed (Definition.sample "pki" "api")
      { store := Store.new ["pki"], clock := Instant.ofSeconds 0 } := by
    intro k ref _ o ho
    cases (Store.find?_new ["pki"] k ref).symm.trans ho
  refine ⟨_, w', hrun, ?_⟩
  apply sync_idempotent (agree_sample "pki" "api") (exclusive_sample "pki" "api")
    (Definition.separate_sample "pki" "api") (fun d hd => (hissuable d hd).sensible)
    (World.calm_new ["pki"] _) hformed hrun hcalm hclock (fun _ _ => rfl)

end Manager

end CertKeeper
