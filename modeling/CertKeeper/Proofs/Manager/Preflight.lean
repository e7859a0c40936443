import CertKeeper.Proofs.Manager.Settled
import CertKeeper.Proofs.Manager.Stoppage

/-!
# Pre-flight

A pass is either refused as a whole or carried out without any further look-up. It is refused for
the first definition of its list that has a `Definition.refusal?`, and then it asks for nothing.
Otherwise it is the `work` on one definition after the other, in which the watched namespaces do not
occur any more. Neither the work nor what it computes fails in the way of a refusal, so such an error
at the end of a pass is the answer to one of its calls (`sync_preflight`).
-/

namespace CertKeeper

/-- The namespaces of the objects that are kept, the signer first, then the bundle, then the leaf. -/
def Stages.namespaces (signer : ResourceRef) : Stages → List String
  | .signer => [signer.ns]
  | .signerAndBundle bundle => [signer.ns, bundle.ns]
  | .full bundle leaf => [signer.ns, bundle.ns, leaf.secret.ns]

/-- The error for which a definition makes a pass be refused: what is wrong with it, or its first
namespace that is not watched. -/
def Definition.refusal? (watched : NameSet) (d : Definition) : Option Error :=
  match d.stages with
  | .error fault => some (.invalidDefinition fault)
  | .ok kept => ((kept.namespaces d.signer).find? (fun ns => !watched.contains ns)).map .noCache

/-! ### The work of a pass -/

/-- If an error is a refusal, a call was answered with it. -/
def Procedure.Told (stop : Stop) (past : List Exchange) : Prop :=
  ∀ e, stop = .error e → e.isRefusal = true → ∃ call ∈ past, call.1.Fails call.2 e

/-- Faults are no refusals. -/
theorem Procedure.covers_told :
  Covers (fun _ => True) Told
  := by
  constructor
  · rintro r answer e hfails past _ ⟨⟩ -
    exact ⟨⟨r, answer⟩, List.mem_cons_self, hfails⟩
  · rintro e hfault past _ ⟨⟩ hrefusal
    cases e with
    | noCache ns => exact hfault.elim
    | invalidDefinition fault => exact hfault.elim
    | _ => cases hrefusal
  · rintro lifetime now past - - - _ ⟨⟩

namespace Manager

open Procedure

variable {watched : NameSet} {definitions : List Definition} {plans : List Plan}

/-- The namespaces that are looked up before a pass are those of the objects that are kept. -/
theorem namespaces_eq {d : Definition} {kept : Stages} (h : d.stages = .ok kept) :
  d.namespaces = kept.namespaces d.signer
  := by
  have hkept := Definition.of_stages h
  cases kept with
  | signer => rw [Definition.namespaces, show d.bundle = none from hkept, Stages.namespaces]
  | signerAndBundle bundle => rw [Definition.namespaces, hkept.1, hkept.2, Stages.namespaces]
  | full bundle leaf => rw [Definition.namespaces, hkept.1, hkept.2, Stages.namespaces]

theorem forM_checkWatched (watched : NameSet) (namespaces : List String) :
  namespaces.forM (checkWatched watched)
    = ((namespaces.find? (fun ns => !watched.contains ns)).elim (.ok ()) (fun ns => .error (.noCache ns)))
  := by
  induction namespaces with
  | nil => rfl
  | cons ns rest ih =>
    show (checkWatched watched ns >>= fun _ => rest.forM (checkWatched watched)) = _
    rw [List.find?_cons, checkWatched]
    cases watched.contains ns with
    | true => exact ih
    | false => rfl

/-- A definition that is refused has no plan. -/
theorem plan_of_refusal {d : Definition} {e : Error} (h : d.refusal? watched = some e) :
  plan watched d = .error e
  := by
  unfold Definition.refusal? at h
  unfold plan
  cases hstages : d.stages with
  | error fault =>
    rw [hstages] at h
    cases h
    rfl
  | ok kept =>
    rw [hstages] at h
    obtain ⟨ns, hns, rfl⟩ := Option.map_eq_some_iff.mp h
    rw [namespaces_eq hstages, forM_checkWatched, hns]
    rfl

/-- A definition that is not refused has one. -/
theorem exists_plan_of_no_refusal {d : Definition} (h : d.refusal? watched = none) :
  ∃ p, plan watched d = .ok p
  := by
  unfold Definition.refusal? at h
  cases hstages : d.stages with
  | error fault =>
    rw [hstages] at h
    cases h
  | ok kept =>
    rw [hstages] at h
    refine ⟨(d, kept), ?_⟩
    rw [plan, hstages, namespaces_eq hstages, forM_checkWatched, Option.map_eq_none_iff.mp h]
    rfl

/-- The pre-flight fails for the first definition that is refused. -/
theorem preflight_of_refusal {e : Error}
    (h : definitions.findSome? (Definition.refusal? watched) = some e) :
  preflight watched definitions = .error e
  := by
  unfold preflight
  induction definitions with
  | nil => cases h
  | cons d rest ih =>
    rw [List.findSome?_cons] at h
    rw [List.mapM_cons]
    cases hrefusal : d.refusal? watched with
    | some e' =>
      rw [hrefusal] at h
      cases h
      rw [plan_of_refusal hrefusal]
      rfl
    | none =>
      rw [hrefusal] at h
      obtain ⟨p, hp⟩ := exists_plan_of_no_refusal hrefusal
      rw [hp, ih h]
      rfl

theorem signerStage_eq {d : Definition} (hwatched : watched.contains d.signer.ns) :
  signerStage watched d = (do
    let secret ← ensureSecret d.signer
    let secret ← ensurePolicy secret d.signer d.signerPolicy
    SignerRequest.ensure ⟨d.signer, d.signerPolicy, some secret⟩)
  := by
  rw [signerStage, prepareSecret_eq _ hwatched, bind_assoc]

theorem leafStage_eq {leaf : Leaf} {ca : Authority} {trusted : List TrustedCertificate}
    (hwatched : watched.contains leaf.secret.ns) :
  leafStage watched leaf ca trusted = (do
    let secret ← ensureSecret leaf.secret
    let secret ← ensurePolicy secret leaf.secret leaf.policy
    LeafStage.ensure ⟨leaf.secret, leaf.policy, leafRequest leaf, some secret⟩ ca trusted)
  := by
  rw [leafStage, prepareSecret_eq _ hwatched, bind_assoc]

/-- In watched namespaces the stages of a definition are the work on it. -/
theorem planStages_eq {p : Plan}
    (hwatched : ∀ ns ∈ p.2.namespaces p.1.signer, watched.contains ns) :
  planStages watched p = work p
  := by
  obtain ⟨d, kept⟩ := p
  unfold planStages work
  cases kept with
  | signer =>
    simp only [Stages.namespaces, List.mem_cons, forall_eq_or_imp] at hwatched
    rw [signerStage_eq hwatched.1]
    simp only [bind_assoc]
    rfl
  | signerAndBundle bundle =>
    simp only [Stages.namespaces, List.mem_cons, forall_eq_or_imp] at hwatched
    rw [signerStage_eq hwatched.1]
    simp only [laterStages, bundleStage_eq hwatched.2.1, bind_assoc]
  | full bundle leaf =>
    simp only [Stages.namespaces, List.mem_cons, forall_eq_or_imp] at hwatched
    rw [signerStage_eq hwatched.1]
    simp only [laterStages, bundleStage_eq hwatched.2.1, leafStage_eq hwatched.2.2.1, bind_assoc]

/-- A pass that is not refused is the work on one definition after the other. -/
theorem sync_eq_work (h : preflight watched definitions = .ok plans) :
  sync watched definitions = plans.forM work
  := by
  rw [sync_eq, h]
  show plans.forM (planStages watched) = _
  have hplans : ∀ p ∈ plans, planStages watched p = work p := by
    intro p hp
    obtain ⟨-, hstages, hwatched⟩ := mem_of_preflight h hp
    apply planStages_eq
    rw [← namespaces_eq hstages]
    apply hwatched
  clear h
  induction plans with
  | nil => rfl
  | cons p plans ih =>
    show planStages watched p >>= _ = work p >>= _
    rw [hplans p List.mem_cons_self, ih (fun q hq => hplans q (List.mem_cons_of_mem _ hq))]

/-- A pass begins with the secret of the first signer. It asks the cache for the secret, and creates one
if the cache has none. If there is one nevertheless, it goes on as if the cache had shown that. -/
theorem exists_requests_sync {p : Plan} (hplans : preflight watched definitions = .ok (p :: plans)) :
  ∃ found created got, (sync watched definitions).run = .ask (.cached .secret p.1.signer) found
    ∧ found none = .ask (.create .secret p.1.signer.ns ⟨{ name := p.1.signer.name }, {}⟩) created
    ∧ created (.error (ApiFailure.alreadyExists .secret p.1.signer.name))
      = .ask (.get .secret p.1.signer) got
    ∧ ∀ s : Secret, got (.ok s) = found (some s)
  := by
  rw [sync_eq_work hplans]
  exact ⟨_, _, _, rfl, rfl, rfl, fun s => rfl⟩

/-- A pass that is not refused stops only as its work may. -/
theorem stops_of_comes {may : Stop → List Exchange → Prop} {lifetimes : Duration → Prop}
    (hm : Covers lifetimes may)
    (hlifetimes : ∀ ref lifetime, Lasts definitions ref lifetime → lifetimes lifetime)
    (hrefused : ∀ e, preflight watched definitions = .error e → may (.error e) []) {σ : Type}
    {step : Surroundings Request.Answer σ} {s s' : σ} {past : List Exchange} {stop : Stop}
    (hcomes : Program.Comes step (sync watched definitions).run s past (.done (.error stop)) s') :
  may stop past
  := by
  have hstops : (sync watched definitions).Safe Program.minutes (fun _ => True) (fun _ _ => True) may [] := by
    cases hplans : preflight watched definitions with
    | error e =>
      rw [sync_eq, hplans]
      apply safe_fail (hrefused e hplans)
    | ok plans =>
      rw [sync_eq_work hplans]
      apply stopsOnly_forM
      intro p hp
      obtain ⟨hd, hstages, -⟩ := mem_of_preflight hplans hp
      apply stopsOnly_work hm hd hstages hlifetimes
  exact hcomes.safe (safe_iff.mp hstops)

/-- Whatever a pass is told that is not refused, a refusal at its end is the answer to a call. -/
theorem told_of_comes (hplans : preflight watched definitions = .ok plans) {σ : Type}
    {step : Surroundings Request.Answer σ} {s s' : σ} {past : List Exchange} {e : Error}
    (hcomes : Program.Comes step (sync watched definitions).run s past (.done (.error (.error e))) s')
    (hrefusal : e.isRefusal = true) :
  ∃ call ∈ past, call.1.Fails call.2 e
  := by
  apply stops_of_comes covers_told _ _ hcomes e rfl hrefusal
  · exact fun _ _ _ => trivial
  · intro e' he'
    cases hplans.symm.trans he'

/-- A pass is refused for the first definition that is invalid or that keeps an object where nothing
is watched, and then asks for nothing at all. Otherwise it is the work on one definition after the
other, which looks nothing up in the watched namespaces, and only a call makes it stop with the error
of a refusal. -/
theorem sync_preflight (watched : NameSet) (definitions : List Definition) :
  (∀ e, definitions.findSome? (Definition.refusal? watched) = some e →
    (sync watched definitions).run = .done (.error (.error e)))
  ∧ (definitions.findSome? (Definition.refusal? watched) = none →
    (∃ plans : List Plan, plans.map Prod.fst = definitions ∧ (∀ p ∈ plans, p.1.stages = .ok p.2)
      ∧ sync watched definitions = plans.forM work)
    ∧ ∀ {σ : Type} {step : Surroundings Request.Answer σ} {s s' : σ} {past : List Exchange} {e : Error},
      Program.Comes step (sync watched definitions).run s past (.done (.error (.error e))) s' →
        e.isRefusal = true → ∃ call ∈ past, call.1.Fails call.2 e)
  := by
  constructor
  · intro e he
    rw [sync_eq, preflight_of_refusal he]
    rfl
  · intro hnone
    have hplanned : ∃ plans, preflight watched definitions = .ok plans := by
      apply exists_mapM
      intro d hd
      apply exists_plan_of_no_refusal (List.findSome?_eq_none_iff.mp hnone d hd)
    obtain ⟨plans, hplans⟩ := hplanned
    have hsync := sync_eq_work hplans
    constructor
    · exact ⟨plans, map_fst_of_preflight hplans, fun p hp => (mem_of_preflight hplans hp).2.1, hsync⟩
    · intro σ step s s' past e hcomes hrefusal
      apply told_of_comes hplans hcomes hrefusal

end Manager

end CertKeeper
