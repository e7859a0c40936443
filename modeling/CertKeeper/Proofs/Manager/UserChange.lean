import CertKeeper.Proofs.Manager.Idempotence

/-!
# Users are not told apart

A leaf stage records nothing about the user of a certificate, and its check looks at nothing that tells
one user from another (`LeafStage.reason?_withUser`). So once a pass has gone through, the same pass for
other users has nothing left to do at that time, and the certificates for the users before stay in place
(`Manager.sync_keeps_users`).
-/

namespace CertKeeper

variable {rename : String → String}

/-- The same identity with another name, if it is a user. -/
def Identity.withUser (rename : String → String) : Identity → Identity
  | .service name => .service name
  | .user name => .user (rename name)

/-- The same leaf for another user, if it is for one. -/
def Leaf.withUser (rename : String → String) (leaf : Leaf) : Leaf :=
  { leaf with identity := leaf.identity.withUser rename }

/-- The same stages with the leaf for another user, if it is for one. -/
def Stages.withUser (rename : String → String) : Stages → Stages
  | .signer => .signer
  | .signerAndBundle bundle => .signerAndBundle bundle
  | .full bundle leaf => .full bundle (leaf.withUser rename)

/-- The same definition for another user, if it is for one. -/
def Definition.withUser (rename : String → String) (d : Definition) : Definition :=
  { d with user := d.user.map rename }

namespace Definition

variable {d : Definition}

theorem identity_withUser (hrename : ∀ user, rename user ≠ "") {secret : ResourceRef}
    {identity : Identity} (h : d.identity secret = .ok identity) :
  (d.withUser rename).identity secret = .ok (identity.withUser rename)
  := by
  obtain ⟨signer, signerPolicy, bundle, target, targetPolicy, service, user⟩ := d
  unfold Definition.identity at h ⊢
  cases service with
  | some name =>
    cases user with
    | some name' => cases h
    | none =>
      dsimp only [withUser, Option.map_none] at h ⊢
      split at h
      · cases h
      · rename_i hempty
        cases h
        rw [if_neg hempty]
        rfl
  | none =>
    cases user with
    | none => cases h
    | some name' =>
      dsimp only [withUser, Option.map_some] at h ⊢
      split at h
      · cases h
      · cases h
        rw [if_neg (by simpa using hrename name')]
        rfl

/-- A valid definition is valid for other users. -/
theorem stages_withUser (hrename : ∀ user, rename user ≠ "") {kept : Stages} (h : d.stages = .ok kept) :
  (d.withUser rename).stages = .ok (kept.withUser rename)
  := by
  -- All checks before that of the identity are the same.
  obtain ⟨_, hsigner, h⟩ := bind_eq_ok.mp h
  refine bind_eq_ok.mpr ⟨_, hsigner, ?_⟩
  obtain ⟨signer, signerPolicy, bundle, target, targetPolicy, service, user⟩ := d
  cases bundle with
  | none =>
    cases h
    rfl
  | some bundle =>
    obtain ⟨_, hbundle, h⟩ := bind_eq_ok.mp h
    refine bind_eq_ok.mpr ⟨_, hbundle, ?_⟩
    cases target with
    | none =>
      cases h
      rfl
    | some secret =>
      obtain ⟨_, htarget, h⟩ := bind_eq_ok.mp h
      refine bind_eq_ok.mpr ⟨_, htarget, ?_⟩
      cases targetPolicy with
      | none => cases h
      | some policy =>
        obtain ⟨identity, hidentity, h⟩ := bind_eq_ok.mp h
        cases h
        exact bind_eq_ok.mpr ⟨_, identity_withUser hrename hidentity, rfl⟩

/-- Definitions for other users are separate if those before are. -/
theorem Separate.withUser {definitions : List Definition} (h : Separate definitions) :
  Separate (definitions.map (.withUser rename))
  := by
  constructor
  · intro d hd d' hd' ref htarget htarget'
    obtain ⟨d, hmem, rfl⟩ := List.mem_map.mp hd
    obtain ⟨d', hmem', rfl⟩ := List.mem_map.mp hd'
    rw [h.targets d hmem d' hmem' ref htarget htarget']
  · intro d hd d' hd'
    obtain ⟨d, hmem, rfl⟩ := List.mem_map.mp hd
    obtain ⟨d', hmem', rfl⟩ := List.mem_map.mp hd'
    apply h.signers d hmem d' hmem'

end Definition

/-- The check of a leaf does not look at its user. -/
theorem LeafStage.reason?_withUser (leaf : Leaf) (known : Option Secret) (s : Secret) (ca : Authority)
    (now : Instant) :
  reason? ⟨leaf.secret, leaf.policy, Manager.leafRequest (leaf.withUser rename), known⟩ s ca now
    = reason? ⟨leaf.secret, leaf.policy, Manager.leafRequest leaf, known⟩ s ca now
  := by
  obtain ⟨ref, policy, identity⟩ := leaf
  cases identity <;> rfl

namespace Manager

variable {definitions : List Definition} {watched : NameSet} {w w' : World} {ca : Authority}

theorem exclusive_withUser {bundle : ResourceRef} :
  Exclusive (definitions.map (.withUser rename)) bundle ↔ Exclusive definitions bundle
  := by
  unfold Exclusive
  simp only [List.forall_mem_map]
  rfl

/-- What has been done for a definition has been done for other users. -/
theorem StagesKept.withUser {kept : Stages} (hkept : StagesKept definitions w ca kept) :
  StagesKept (definitions.map (.withUser rename)) w ca (kept.withUser rename)
  := by
  have hbundle : ∀ {bundle}, BundleKept definitions w bundle ca →
      BundleKept (definitions.map (.withUser rename)) w bundle ca :=
    fun h => ⟨h.listed, fun hexclusive => h.settled (exclusive_withUser.mp hexclusive)⟩
  cases kept with
  | signer => trivial
  | signerAndBundle bundle => apply hbundle hkept
  | full bundle leaf =>
    obtain ⟨hkept, s, hprepared, hreason⟩ := hkept
    refine ⟨hbundle hkept, s, hprepared, ?_⟩
    rw [← hreason]
    apply LeafStage.reason?_withUser

/-- A pass that goes through in a calm world is followed by nothing if only users are replaced: the pass
for the other users at the same time goes through and changes nothing in the world. -/
theorem sync_keeps_users (hrename : ∀ user, rename user ≠ "") (hagree : Agree definitions)
    (hexclusive : ∀ bundle, Exclusive definitions bundle) (hsep : Definition.Separate definitions)
    (hsensible : ∀ d ∈ definitions, Sensible d) (hw : w.Calm watched) (hformed : Formed definitions w)
    (hrun : World.run (sync watched definitions) w = (.ok (), w')) :
  World.run (sync watched (definitions.map (.withUser rename))) w' = (.ok (), w')
  := by
  have hfirst := Procedure.leads_iff.mp (leads_sync hagree hsep hsensible hw hformed)
  rw [hrun] at hfirst
  obtain ⟨plans, hplans, hadvances, hkept⟩ := hfirst
  have hcalm := hadvances.calm
  obtain ⟨plans', hplans'⟩ : ∃ plans',
      preflight watched (definitions.map (.withUser rename)) = .ok plans' := by
    apply exists_preflight
    intro d' hd'
    obtain ⟨d, hd, rfl⟩ := List.mem_map.mp hd'
    obtain ⟨p, hp, rfl, hstages⟩ := exists_plan hplans hd
    exact ⟨⟨_, Definition.stages_withUser hrename hstages⟩, (mem_of_preflight hplans hp).2.2⟩
  have hkept' : ∀ p' ∈ plans', PlanKept (definitions.map (.withUser rename)) w' p' := by
    rintro ⟨d', kept'⟩ hp'
    obtain ⟨hd', hstages', -⟩ := mem_of_preflight hplans' hp'
    obtain ⟨d, hd, rfl⟩ := List.mem_map.mp hd'
    obtain ⟨⟨d, kept⟩, hp, rfl, hstages⟩ := exists_plan hplans hd
    cases (Definition.stages_withUser hrename hstages).symm.trans hstages'
    obtain ⟨ca, hsigner, hlater⟩ := hkept _ hp
    exact ⟨ca, hsigner, hlater.withUser⟩
  have hnothing : (sync watched (definitions.map (.withUser rename))).Leads (fun _ w => w = w')
      (fun _ _ => False) w' :=
    leads_sync_kept hplans' (fun bundle => exclusive_withUser.mpr (hexclusive bundle)) hcalm hkept'
  obtain ⟨_, _, hsecond, rfl⟩ := hnothing.exists_run
  exact hsecond

end Manager

end CertKeeper
