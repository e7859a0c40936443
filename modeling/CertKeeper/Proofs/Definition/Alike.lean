import CertKeeper.Proofs.Manager.Restored

/-!
# Definitions with other policies

Definitions that differ in their policies are `Definition.Alike`: they are for the same objects, and
what is to be kept for them differs in the policy of the leaf at most
(`Definition.stages_withTargetPolicy`). So what is in custody for one of them is in custody for the
other (`Manager.Custody.alike`), and a pass over the one goes through where a pass over the other does
(`Manager.exists_run_alike`).
-/

namespace CertKeeper

/-- The stages with another policy for the leaf. -/
def Stages.withLeafPolicy (policy : Policy) : Stages → Stages
  | .full bundle leaf => .full bundle { leaf with policy := policy }
  | kept => kept

namespace Definition

variable {d d' : Definition} {before after : List Definition} {kept : Stages}

/-- Another policy for the target is one for the leaf. -/
theorem stages_withTargetPolicy (policy : Policy) (hstages : d.stages = .ok kept) :
  { d with targetPolicy := some policy }.stages = .ok (kept.withLeafPolicy policy)
  := by
  -- All checks before that of the policy are the same.
  obtain ⟨_, hsigner, hstages⟩ := bind_eq_ok.mp hstages
  refine bind_eq_ok.mpr ⟨_, hsigner, ?_⟩
  obtain ⟨signer, signerPolicy, bundle, target, former, service, user⟩ := d
  cases bundle with
  | none =>
    cases hstages
    rfl
  | some bundle =>
    obtain ⟨_, hbundle, hstages⟩ := bind_eq_ok.mp hstages
    refine bind_eq_ok.mpr ⟨_, hbundle, ?_⟩
    cases target with
    | none =>
      cases hstages
      rfl
    | some secret =>
      obtain ⟨_, htarget, hstages⟩ := bind_eq_ok.mp hstages
      refine bind_eq_ok.mpr ⟨_, htarget, ?_⟩
      cases former with
      | none => cases hstages
      | some former =>
        obtain ⟨identity, hidentity, hstages⟩ := bind_eq_ok.mp hstages
        cases hstages
        exact bind_eq_ok.mpr ⟨_, hidentity, rfl⟩

/-- The policy of a leaf is the one for the target. -/
theorem targetPolicy_of_stages {bundle : ResourceRef} {leaf : Leaf}
    (hstages : d.stages = .ok (.full bundle leaf)) :
  d.targetPolicy = some leaf.policy
  := by
  obtain ⟨secret, policy, identity⟩ := leaf
  obtain ⟨hbundle, htarget⟩ := of_stages hstages
  simp only [stages, hbundle, htarget, bind_eq_ok] at hstages
  obtain ⟨_, -, _, -, _, -, hstages⟩ := hstages
  cases hpolicy : d.targetPolicy with
  | none =>
    rw [hpolicy] at hstages
    cases hstages
  | some former =>
    rw [hpolicy] at hstages
    obtain ⟨identity, -, hstages⟩ := bind_eq_ok.mp hstages
    cases hstages
    rfl

/-- Two definitions are for the same objects, and for the same leaf but for its policy. -/
structure Alike (d d' : Definition) : Prop where
  signer : d'.signer = d.signer
  bundle : d'.bundle = d.bundle
  target : d'.target = d.target
  leaf : ∀ bundle leaf, d'.stages = .ok (.full bundle leaf) →
    ∃ policy, d.stages = .ok (.full bundle { leaf with policy := policy })

theorem Alike.withSignerPolicy (d : Definition) (policy : Policy) :
  d.Alike { d with signerPolicy := policy }
  := ⟨rfl, rfl, rfl, fun _ leaf hstages => ⟨leaf.policy, hstages⟩⟩

theorem Alike.refl (d : Definition) :
  d.Alike d
  := Alike.withSignerPolicy d d.signerPolicy

theorem Alike.withTargetPolicy (policy : Policy) (hstages : d.stages = .ok kept) :
  d.Alike { d with targetPolicy := some policy }
  := by
  refine ⟨rfl, rfl, rfl, ?_⟩
  intro bundle leaf hstages'
  have hkept := Except.ok.inj ((stages_withTargetPolicy policy hstages).symm.trans hstages')
  cases kept with
  | signer => cases hkept
  | signerAndBundle bundle' => cases hkept
  | full bundle' leaf' =>
    cases hkept
    exact ⟨leaf'.policy, hstages⟩

theorem Alike.names (h : d.Alike d') {k : Kind} {ref : ResourceRef} (hnames : d'.Names k ref) :
  d.Names k ref
  := by
  cases hnames with
  | signer =>
    rw [h.signer]
    apply Names.signer
  | bundle hbundle => exact .bundle (h.bundle.symm.trans hbundle)
  | target hbundle htarget =>
    exact .target (h.bundle.symm.trans hbundle) (h.target.symm.trans htarget)

theorem Alike.namespaces (h : d.Alike d') :
  d'.namespaces = d.namespaces
  := by
  unfold Definition.namespaces
  rw [h.signer, h.bundle, h.target]

/-- A member of a list stands in the middle or at another place. -/
theorem mem_around {e : Definition} :
  e ∈ before ++ d :: after ↔ e = d ∨ e ∈ before ++ after
  := by
  rw [List.perm_middle.mem_iff, List.mem_cons]

/-- Where one definition is exchanged for one that is alike, all are alike to one from before. -/
theorem Alike.exists_mem (h : d.Alike d') {e : Definition} (he : e ∈ before ++ d' :: after) :
  ∃ c ∈ before ++ d :: after, c.Alike e
  := by
  rcases mem_around.mp he with rfl | he
  · exact ⟨d, mem_around.mpr (.inl rfl), h⟩
  · exact ⟨e, mem_around.mpr (.inr he), .refl e⟩

/-- Definitions stay separate if one of them, whose objects are for no other one, is exchanged for one
that is alike. -/
theorem Separate.exchange (hsep : Separate (before ++ d :: after))
    (halone : ∀ e ∈ before ++ after, ∀ k ref, d.Names k ref → ¬ e.Names k ref) (h : d.Alike d') :
  Separate (before ++ d' :: after)
  := by
  have hothers : ∀ e ∈ before ++ after, ∀ ref, e.target = some ref → d'.target ≠ some ref := by
    intro e he ref htarget hsame
    rw [h.target] at hsame
    obtain rfl := hsep.targets e (mem_around.mpr (.inr he)) d (mem_around.mpr (.inl rfl)) ref htarget
      hsame
    exact halone e he _ _ .signer .signer
  constructor
  · intro e he e' he' ref htarget htarget'
    rcases mem_around.mp he with rfl | hother
    · rcases mem_around.mp he' with rfl | hother'
      · rfl
      · exact absurd htarget (hothers e' hother' ref htarget')
    · rcases mem_around.mp he' with rfl | hother'
      · exact absurd htarget' (hothers e hother ref htarget)
      · apply hsep.targets e (mem_around.mpr (.inr hother)) e' (mem_around.mpr (.inr hother')) ref
          htarget htarget'
  · intro e he e' he'
    obtain ⟨c, hc, hsame⟩ := h.exists_mem he
    obtain ⟨c', hc', hsame'⟩ := h.exists_mem he'
    rw [hsame.target, hsame'.signer]
    apply hsep.signers c hc c' hc'

end Definition

namespace Manager

variable {definitions definitions' before after : List Definition} {d d' : Definition}
variable {watched : NameSet} {plans : List Plan} {h : History} {w : World} {now : Instant}
variable {policy : Policy}

/-- What is in custody for definitions is in custody for such that are alike. -/
theorem Custody.alike {shows : Instant → Prop} (hc : Custody definitions shows h)
    (halike : ∀ d' ∈ definitions', ∃ d ∈ definitions, d.Alike d') :
  Custody definitions' shows h
  := by
  constructor
  · apply hc.shown
  · apply hc.coherent.mono
    rintro k ref ⟨d', hd', hnames⟩
    obtain ⟨d, hd, hsame⟩ := halike d' hd'
    exact ⟨d, hd, hsame.names hnames⟩
  · intro d' hd'
    obtain ⟨d, hd, hsame⟩ := halike d' hd'
    rw [hsame.signer]
    apply hc.signers d hd
  · intro d' hd' bundle leaf hstages
    obtain ⟨d, hd, hsame⟩ := halike d' hd'
    obtain ⟨policy, hstages'⟩ := hsame.leaf bundle leaf hstages
    apply hc.leaves d hd bundle _ hstages'
  · intro d' hd' bundle hbundle
    obtain ⟨d, hd, hsame⟩ := halike d' hd'
    apply hc.bundles d hd bundle (hsame.bundle.symm.trans hbundle)

theorem Issuable.withSignerPolicy (hd : Issuable now d) (hpolicy : policy.Sensible)
    (hpossible : Validity.Possible now policy.lifetime) :
  Issuable now { d with signerPolicy := policy }
  := ⟨hpolicy, hpossible, hd.moderate, hd.leaf⟩

theorem Issuable.withTargetPolicy {kept : Stages} (hd : Issuable now d) (hstages : d.stages = .ok kept)
    (hpolicy : policy.Sensible) (hpossible : Validity.Possible now policy.lifetime) :
  Issuable now { d with targetPolicy := some policy }
  := by
  refine ⟨hd.policy, hd.possible, hd.moderate, ?_⟩
  intro bundle leaf hstages'
  obtain ⟨former, hformer⟩ := (Definition.Alike.withTargetPolicy policy hstages).leaf bundle leaf hstages'
  have hleaf := hd.leaf bundle _ hformer
  obtain rfl := Option.some.inj (Definition.targetPolicy_of_stages hstages')
  exact ⟨hpolicy, hpossible, hleaf.ascii, hleaf.moderate⟩

/-- Where a pass can go through, it can do so with other policies for one definition, the objects of
which are for no other one. -/
theorem exists_run_alike (hplans : preflight watched (before ++ d :: after) = .ok plans)
    (hsep : Definition.Separate (before ++ d :: after))
    (halone : ∀ e ∈ before ++ after, ∀ k ref, d.Names k ref → ¬ e.Names k ref) (halike : d.Alike d')
    (hvalid : ∃ kept, d'.stages = .ok kept)
    (hissuable : ∀ e ∈ before ++ after, Issuable w.clock e) (hissuable' : Issuable w.clock d')
    (hc : Custody (before ++ d :: after) Shown h) (hcontinues : h.Continues watched w) :
  ∃ w', World.run (sync watched (before ++ d' :: after)) w = (.ok (), w')
  := by
  have hplanned : ∀ e ∈ before ++ d :: after,
      (∃ kept, e.stages = .ok kept) ∧ ∀ ns ∈ e.namespaces, watched.contains ns := by
    intro e he
    obtain ⟨p, hp, rfl, hstages⟩ := exists_plan hplans he
    exact ⟨⟨_, hstages⟩, (mem_of_preflight hplans hp).2.2⟩
  obtain ⟨plans', hplans'⟩ : ∃ plans', preflight watched (before ++ d' :: after) = .ok plans' := by
    apply exists_preflight
    intro e he
    rcases Definition.mem_around.mp he with rfl | he
    · rw [halike.namespaces]
      exact ⟨hvalid, (hplanned d (Definition.mem_around.mpr (.inl rfl))).2⟩
    · apply hplanned e (Definition.mem_around.mpr (.inr he))
  have hall : ∀ e ∈ before ++ d' :: after, Issuable w.clock e := by
    intro e he
    rcases Definition.mem_around.mp he with rfl | he
    · apply hissuable'
    · apply hissuable e he
  obtain ⟨_, w', hrun, -⟩ := (goes_sync hplans' (hsep.exchange halone halike) hall
    (hc.alike (fun _ => halike.exists_mem)) hcontinues).exists_run
  exact ⟨w', hrun⟩

end Manager

end CertKeeper
