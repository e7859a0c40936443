import CertKeeper.Manager.Sync
import CertKeeper.Proofs.Cluster.Procedure
import CertKeeper.Proofs.Program.Result

/-!
# The stages of a pass

A pass with the rotation is the pre-flight and then, for each definition, three procedures
after one another (`Manager.sync_eq`). The pre-flight goes through exactly if all definitions
are valid and watched, and its plans are the definitions with their stages
(`Manager.mem_of_preflight`, `Manager.exists_plan`).
-/

namespace CertKeeper

namespace PassM

variable {α β : Type}

/-- The work of a pass with its stages carried out as the rotation. -/
def rotation (x : PassM α) : Procedure α := ExceptT.mk (x.run.expand Step.perform)

theorem rotation_bind (x : PassM α) (f : α → PassM β) :
  (x >>= f).rotation = x.rotation >>= fun a => (f a).rotation
  := by
  apply (Program.expand_bind Step.perform x.run _).trans
  apply congrArg (Program.bind (x.run.expand Step.perform))
  funext r
  cases r <;> rfl

theorem rotation_procedure (p : Procedure α) :
  (procedure p).rotation = p
  := by
  have hexpand : ∀ q : Program Request.Answer (Except Stop α),
      (q.expand (fun r => Program.perform (Step.request r))).expand Step.perform = q := by
    intro q
    induction q with
    | done a => rfl
    | ask op next ih =>
      apply congrArg (Program.ask op)
      funext answer
      apply ih answer
  apply hexpand p.run

theorem rotation_stage (s : Stage) :
  (stage s).rotation = s.perform
  := Program.bind_done s.perform.run

theorem rotation_forM (l : List α) (f : α → PassM Unit) :
  (l.forM f).rotation = l.forM (fun a => (f a).rotation)
  := by
  induction l with
  | nil => rfl
  | cons a l ih =>
    apply (rotation_bind _ _).trans
    simp only [ih]
    rfl

end PassM

namespace Manager

variable {watched : NameSet} {d : Definition} {bundle : ResourceRef} {leaf : Leaf}
variable {definitions : List Definition} {plans : List Plan}

/-- A new secret without values, or the one that is there. -/
def createSecret (ref : ResourceRef) : Procedure Secret := do
  match ← Procedure.ask (.create .secret ref.ns ⟨{ name := ref.name }, {}⟩) with
  | .ok secret => return secret
  | .error e => if e.isAlreadyExists then Procedure.get .secret ref else Procedure.fail e

/-- A secret that the cache does not show is created. -/
theorem ensureSecret_eq (ref : ResourceRef) :
  ensureSecret ref = (do
    match ← Procedure.cached .secret ref with
    | some secret => return secret
    | none => createSecret ref)
  := rfl

/-- The signer stage of a definition as a procedure. -/
def signerStage (watched : NameSet) (d : Definition) : Procedure Authority := do
  let secret ← prepareSecret watched d.signer d.signerPolicy
  SignerRequest.ensure ⟨d.signer, d.signerPolicy, some secret⟩

/-- The bundle stage of a definition as a procedure. -/
def bundleStage (watched : NameSet) (bundle : ResourceRef) (ca : Authority) :
    Procedure (List TrustedCertificate) := do
  Procedure.ofResult (checkWatched watched bundle.ns)
  Bundle.ensure bundle ca

/-- The leaf stage of a definition as a procedure. -/
def leafStage (watched : NameSet) (leaf : Leaf) (ca : Authority) (trusted : List TrustedCertificate) :
    Procedure Unit := do
  let secret ← prepareSecret watched leaf.secret leaf.policy
  LeafStage.ensure ⟨leaf.secret, leaf.policy, leafRequest leaf, some secret⟩ ca trusted

/-- What follows the signer stage. -/
def laterStages (watched : NameSet) (ca : Authority) : Stages → Procedure Unit
  | .signer => return ()
  | .signerAndBundle bundle => do
    let _ ← bundleStage watched bundle ca
    return ()
  | .full bundle leaf => do
    let trusted ← bundleStage watched bundle ca
    leafStage watched leaf ca trusted

/-- The stages of a definition as a procedure. -/
def planStages (watched : NameSet) (p : Plan) : Procedure Unit := do
  let ca ← signerStage watched p.1
  laterStages watched ca p.2

theorem rotation_ensureSigner (watched : NameSet) (d : Definition) :
  (ensureSigner watched d).rotation = signerStage watched d
  := by
  rw [ensureSigner, PassM.rotation_bind, PassM.rotation_procedure]
  congr
  funext _
  apply PassM.rotation_stage

theorem rotation_ensureBundle (watched : NameSet) (bundle : ResourceRef) (ca : Authority) :
  (ensureBundle watched bundle ca).rotation = bundleStage watched bundle ca
  := by
  rw [ensureBundle, PassM.rotation_bind, PassM.rotation_procedure]
  congr
  funext _
  apply PassM.rotation_stage

theorem rotation_ensureLeaf (watched : NameSet) (leaf : Leaf) (ca : Authority)
    (trusted : List TrustedCertificate) :
  (ensureLeaf watched leaf ca trusted).rotation = leafStage watched leaf ca trusted
  := by
  rw [ensureLeaf, PassM.rotation_bind, PassM.rotation_procedure]
  congr
  funext _
  apply PassM.rotation_stage

theorem rotation_runPlan (watched : NameSet) (p : Plan) :
  (runPlan watched p).rotation = planStages watched p
  := by
  obtain ⟨d, stages⟩ := p
  rw [runPlan, PassM.rotation_bind, rotation_ensureSigner, planStages]
  congr
  funext ca
  cases stages with
  | signer => rfl
  | signerAndBundle bundle =>
    simp only [laterStages, PassM.rotation_bind, rotation_ensureBundle]
    rfl
  | full bundle leaf =>
    simp only [laterStages, PassM.rotation_bind, rotation_ensureBundle, rotation_ensureLeaf]

/-- A pass is the pre-flight, and then the stages of one definition after the other. -/
theorem sync_eq (watched : NameSet) (definitions : List Definition) :
  sync watched definitions = (do
    let plans ← Procedure.ofResult (preflight watched definitions)
    plans.forM (planStages watched))
  := by
  show (pass watched definitions).rotation = _
  rw [pass, PassM.rotation_bind, PassM.rotation_procedure]
  simp only [PassM.rotation_forM, rotation_runPlan]

/-! ### Pre-flight -/

theorem checkWatched_eq_ok {ns : String} :
  checkWatched watched ns = .ok () ↔ watched.contains ns
  := by
  unfold checkWatched
  split
  · simp_all
  · simp_all

/-- A definition has a plan if it is valid and watched. -/
theorem plan_eq_ok {p : Plan} :
  plan watched d = .ok p
    ↔ p.1 = d ∧ d.stages = .ok p.2 ∧ ∀ ns ∈ d.namespaces, watched.contains ns
  := by
  obtain ⟨d', stages⟩ := p
  have hforM : d.namespaces.forM (checkWatched watched) = .ok ()
      ↔ ∀ ns ∈ d.namespaces, watched.contains ns := by
    rw [forM_eq_ok]
    simp only [checkWatched_eq_ok]
  rw [← hforM]
  simp only [plan, bind_eq_ok, mapError_eq_ok]
  constructor
  · rintro ⟨_, hstages, _, hwatched, h⟩
    cases h
    exact ⟨rfl, hstages, hwatched⟩
  · rintro ⟨rfl, hstages, hwatched⟩
    exact ⟨_, hstages, (), hwatched, rfl⟩

/-- Every plan is a definition with its stages, and watched. -/
theorem mem_of_preflight (h : preflight watched definitions = .ok plans) {p : Plan} (hp : p ∈ plans) :
  p.1 ∈ definitions ∧ p.1.stages = .ok p.2 ∧ ∀ ns ∈ p.1.namespaces, watched.contains ns
  := by
  obtain ⟨d, hd, hplan⟩ := (mapM_eq_ok h).1 p hp
  obtain ⟨rfl, hstages, hwatched⟩ := plan_eq_ok.mp hplan
  exact ⟨hd, hstages, hwatched⟩

/-- The plans are for the definitions, one by one. -/
theorem map_fst_of_preflight (h : preflight watched definitions = .ok plans) :
  plans.map Prod.fst = definitions
  := by
  have hall := forall₂_of_mapM h
  clear h
  induction hall with
  | nil => rfl
  | cons hplan _ ih => rw [List.map_cons, ih, (plan_eq_ok.mp hplan).1]

/-- Every definition has a plan. -/
theorem exists_plan (h : preflight watched definitions = .ok plans) (hd : d ∈ definitions) :
  ∃ p ∈ plans, p.1 = d ∧ d.stages = .ok p.2
  := by
  obtain ⟨p, hp, hplan⟩ := (mapM_eq_ok h).2 d hd
  obtain ⟨hsame, hstages, -⟩ := plan_eq_ok.mp hplan
  exact ⟨p, hp, hsame, hstages⟩

/-- A pass runs the stages of one definition after the other, if the pre-flight goes through. Those
of each definition keep the invariant, do their work and leave that for the others. -/
theorem safe_sync {σ : Type} {step : Surroundings Request.Answer σ} {keep inv : σ → Prop}
    {done : Plan → σ → Prop} {stop : Stop → σ → Prop} {s : σ}
    (hrefused : ∀ e, preflight watched definitions = .error e → stop (.error e) s)
    (hstages : ∀ {plans}, preflight watched definitions = .ok plans → ∀ p ∈ plans, ∀ s, inv s →
      (planStages watched p).Safe step keep
        (fun _ s' => inv s' ∧ done p s' ∧ ∀ q ∈ plans, done q s → done q s') stop s)
    (h : inv s) :
  (sync watched definitions).Safe step keep
    (fun _ s' => ∃ plans, preflight watched definitions = .ok plans ∧ inv s'
      ∧ ∀ p ∈ plans, done p s')
    stop s
  := by
  rw [sync_eq]
  apply Procedure.safe_bind
  apply Procedure.safe_ofResult
  · intro plans hplans
    apply Procedure.safe_mono (Procedure.safe_forM (hstages hplans) h)
    rintro _ s' ⟨hs', hdone⟩
    exact ⟨plans, hplans, hs', hdone⟩
  · apply hrefused

/-- What the stages of every definition keep is kept by a pass. -/
theorem safe_sync_keeps {σ : Type} {step : Surroundings Request.Answer σ} {keep inv : σ → Prop}
    {stop : Stop → σ → Prop} {s : σ}
    (hrefused : ∀ e, preflight watched definitions = .error e → stop (.error e) s)
    (hstages : ∀ {plans}, preflight watched definitions = .ok plans → ∀ p ∈ plans, ∀ s, inv s →
      (planStages watched p).Safe step keep (fun _ s' => inv s') stop s)
    (h : inv s) :
  (sync watched definitions).Safe step keep (fun _ s' => inv s') stop s
  := by
  have hpass : (sync watched definitions).Safe step keep
      (fun _ s' => ∃ plans, preflight watched definitions = .ok plans ∧ inv s' ∧ ∀ p ∈ plans, True)
      stop s := by
    apply safe_sync hrefused _ h
    intro plans hplans p hp s hs
    apply Procedure.safe_mono (hstages hplans p hp s hs)
    intro _ s' hs'
    exact ⟨hs', trivial, fun _ _ _ => trivial⟩
  apply Procedure.safe_mono hpass
  rintro _ s' ⟨_, -, hs', -⟩
  apply hs'

/-- Valid and watched definitions can be planned. -/
theorem exists_preflight
    (h : ∀ d ∈ definitions,
      (∃ kept, d.stages = .ok kept) ∧ ∀ ns ∈ d.namespaces, watched.contains ns) :
  ∃ plans, preflight watched definitions = .ok plans
  := by
  apply exists_mapM
  intro d hd
  obtain ⟨⟨kept, hstages⟩, hwatched⟩ := h d hd
  exact ⟨(d, kept), plan_eq_ok.mpr ⟨rfl, hstages, hwatched⟩⟩

end Manager

/-! ### The objects of a definition -/

namespace Definition

variable {definitions : List Definition} {d : Definition} {bundle : ResourceRef} {leaf : Leaf}

/-- The stages of a definition are for the objects that it names. -/
theorem of_stages {kept : Stages} (h : d.stages = .ok kept) :
  match kept with
  | .signer => d.bundle = none
  | .signerAndBundle bundle => d.bundle = some bundle ∧ d.target = none
  | .full bundle leaf => d.bundle = some bundle ∧ d.target = some leaf.secret
  := by
  simp only [Definition.stages, bind_eq_ok] at h
  obtain ⟨_, -, h⟩ := h
  cases hbundle : d.bundle with
  | none =>
    rw [hbundle] at h
    cases h
    rfl
  | some bundle =>
    rw [hbundle] at h
    obtain ⟨_, -, h⟩ := bind_eq_ok.mp h
    cases htarget : d.target with
    | none =>
      rw [htarget] at h
      cases h
      exact ⟨rfl, rfl⟩
    | some secret =>
      rw [htarget] at h
      obtain ⟨_, -, h⟩ := bind_eq_ok.mp h
      cases hpolicy : d.targetPolicy with
      | none =>
        rw [hpolicy] at h
        cases h
      | some policy =>
        rw [hpolicy] at h
        obtain ⟨identity, -, h⟩ := bind_eq_ok.mp h
        cases h
        exact ⟨rfl, rfl⟩

/-- A valid definition with a bundle and a target has all stages. -/
theorem full_of_stages {kept : Stages} {target : ResourceRef} (h : d.stages = .ok kept)
    (hbundle : d.bundle = some bundle) (htarget : d.target = some target) :
  ∃ leaf, kept = .full bundle leaf ∧ leaf.secret = target
  := by
  have hkept := of_stages h
  cases kept with
  | signer => cases hbundle.symm.trans hkept
  | signerAndBundle bundle' => cases htarget.symm.trans hkept.2
  | full bundle' leaf =>
    cases hbundle.symm.trans hkept.1
    cases htarget.symm.trans hkept.2
    exact ⟨leaf, rfl, rfl⟩

/-- An object is kept for a definition. A target is kept only beside a bundle. -/
inductive Names (d : Definition) : Kind → ResourceRef → Prop where
  | signer : d.Names .secret d.signer
  | bundle {ref : ResourceRef} : d.bundle = some ref → d.Names .configMap ref
  | target {bundle ref : ResourceRef} : d.bundle = some bundle → d.target = some ref →
      d.Names .secret ref

theorem Names.of_stages (h : d.stages = .ok (.full bundle leaf)) :
  d.Names .secret leaf.secret
  := by
  obtain ⟨hbundle, htarget⟩ := Definition.of_stages h
  exact .target hbundle htarget

theorem Names.mem_namespaces {k : Kind} {ref : ResourceRef} (h : d.Names k ref) :
  ref.ns ∈ d.namespaces
  := by
  unfold namespaces
  cases h with
  | signer =>
    split <;> apply List.mem_cons_self
  | bundle hbundle =>
    rw [hbundle]
    cases d.target <;> simp
  | target hbundle htarget =>
    rw [hbundle, htarget]
    simp

/-- An object is kept for one of the definitions. -/
def Named (definitions : List Definition) (k : Kind) (ref : ResourceRef) : Prop :=
  ∃ d ∈ definitions, d.Names k ref

/-- A leaf is kept for one of the definitions. -/
def Asked (definitions : List Definition) (leaf : Leaf) : Prop :=
  ∃ d ∈ definitions, ∃ bundle, d.stages = .ok (.full bundle leaf)

theorem Asked.named (h : Asked definitions leaf) :
  Named definitions .secret leaf.secret
  := by
  obtain ⟨d, hd, bundle, hstages⟩ := h
  exact ⟨d, hd, .of_stages hstages⟩

/-- No target is named by two definitions, or is a signer. -/
structure Separate (definitions : List Definition) : Prop where
  targets : ∀ d ∈ definitions, ∀ d' ∈ definitions, ∀ ref,
    d.target = some ref → d'.target = some ref → d = d'
  signers : ∀ d ∈ definitions, ∀ d' ∈ definitions, d.target ≠ some d'.signer

/-- No other definition has an object at the secret of a leaf. -/
theorem Separate.eq_of_names {d' : Definition} (hsep : Separate definitions) (hd : d ∈ definitions)
    (hstages : d.stages = .ok (.full bundle leaf)) (hd' : d' ∈ definitions)
    (hnames : d'.Names .secret leaf.secret) :
  d' = d
  := by
  have htarget := (of_stages hstages).2
  -- The secret is either the signer or the target of the other definition.
  generalize href : leaf.secret = ref at hnames
  cases hnames with
  | signer =>
    rw [href] at htarget
    exact absurd htarget (hsep.signers d hd d' hd')
  | target _ htarget' =>
    rw [href] at htarget
    apply hsep.targets d' hd' d hd ref htarget' htarget

/-- Whatever is kept for valid and watched definitions is in watched namespaces. -/
theorem Named.watched {plans : List Manager.Plan} {watched : NameSet}
    (hvalid : Manager.preflight watched definitions = .ok plans) {k : Kind} {ref : ResourceRef}
    (h : Named definitions k ref) :
  watched.contains ref.ns
  := by
  obtain ⟨d, hd, hnames⟩ := h
  obtain ⟨p, hp, rfl, -⟩ := Manager.exists_plan hvalid hd
  obtain ⟨-, -, hwatched⟩ := Manager.mem_of_preflight hvalid hp
  apply hwatched _ hnames.mem_namespaces

end Definition

end CertKeeper
