import CertKeeper.Proofs.Definition.Sample
import CertKeeper.Proofs.Manager.PlanAbreast

/-!
# The order of definitions

Definitions that have no object in common may be brought in line in any order (`Manager.sync_perm`). Each
of them finds its own objects as they were before the pass, whatever the pass has done for the others. So
its stages come to what they come to if they are carried out first, and what they write depends neither on
the definitions before it nor on the keys that these have used up.
-/

namespace CertKeeper

/-- Two definitions have no object in common. -/
def Definition.Apart (d e : Definition) : Prop := ∀ k ref, d.Names k ref → ¬ e.Names k ref

namespace Manager

open Procedure World

variable {watched : NameSet} {origin w w' u u' v v' : World} {p : Plan} {plans : List Plan}
variable {definitions definitions' : List Definition}

/-! ### Plans one after the other -/

/-- The stages of a plan go through where they are carried out first. -/
def Able (watched : NameSet) (origin : World) (p : Plan) : Prop :=
  ∃ w, World.run (planStages watched p) origin = (.ok (), w)

/-- What the stages of a plan write where they are carried out first. -/
def writesOf (watched : NameSet) (origin : World) (p : Plan) : List Write :=
  (World.run (planStages watched p) origin).2.store.writes.drop origin.store.writes.length

/-- The stages of a plan went through where they were awaited, and have left its objects as they are. -/
def Carried (watched : NameSet) (origin : World) (p : Plan) (u : World) : Prop :=
  ∃ a b, Awaits watched origin p a ∧ World.run (planStages watched p) a = (.ok (), b)
    ∧ ∀ {k ref}, p.1.Names k ref → u.store.find? k ref = b.store.find? k ref

theorem Carried.of_find? (h : Carried watched origin p u)
    (hkept : ∀ {k ref}, p.1.Names k ref → u'.store.find? k ref = u.store.find? k ref) :
  Carried watched origin p u'
  := by
  obtain ⟨a, b, ha, hrun, hobjects⟩ := h
  exact ⟨a, b, ha, hrun, fun hnames => (hkept hnames).trans (hobjects hnames)⟩

/-- Wherever the stages of a plan were carried out, its objects are alike. -/
theorem Carried.planAlike (hp : Fit watched origin.store p) (hu : Carried watched origin p u)
    (hv : Carried watched origin p v) :
  PlanAlike origin.clock u.store v.store p
  := by
  obtain ⟨a, b, ha, hrun, hobjects⟩ := hu
  obtain ⟨a', b', ha', hrun', hobjects'⟩ := hv
  have hpairs := pairs_iff.mp (pairs_planStages hp ha ha')
  rw [hrun, hrun'] at hpairs
  apply hpairs.2.of_find? hp.stages hobjects hobjects'

/-- What the stages of one plan come to. -/
structure PlanRun (watched : NameSet) (origin : World) (p : Plan) (u u' : World) : Prop where
  able : Able watched origin p
  logs : u.Logs watched (writesOf watched origin p) u'
  places : ∀ x ∈ writesOf watched origin p, p.1.Names x.kind x.ref
  keys : u.keys ≤ u'.keys ∧ u'.keys ≤ u.keys + 2
  carried : Carried watched origin p u'

/-- What the stages of plans come to, one after the other. -/
structure PlansRun (watched : NameSet) (origin : World) (plans : List Plan) (u u' : World) : Prop where
  able : ∀ p ∈ plans, Able watched origin p
  logs : u.Logs watched (plans.flatMap (writesOf watched origin)) u'
  places : ∀ p ∈ plans, ∀ x ∈ writesOf watched origin p, p.1.Names x.kind x.ref
  carried : ∀ p ∈ plans, Carried watched origin p u'

/-- Where its stages are awaited, a plan comes to what it comes to where it is carried out first. -/
theorem leads_planRun (hp : Fit watched origin.store p) (horigin : Awaits watched origin p origin)
    (hu : Awaits watched origin p u) :
  (planStages watched p).Leads (fun _ u' => PlanRun watched origin p u u')
    (fun _ _ => ¬ Able watched origin p) u
  := by
  have hkeys : (planStages watched p).Leads (fun _ u' => u.keys ≤ u'.keys ∧ u'.keys ≤ u.keys + 2)
      (fun _ _ => True) u := (draws_planStages p).leads
  apply ((pairs_planStages hp horigin hu).leads.and hkeys).mono
  · rintro _ u' ⟨⟨hrun, _, w', hfirst, hpaced, -⟩, hkeys⟩
    obtain ⟨log, hlogs, hlogs', hplaces⟩ := hpaced
    have hwrites : writesOf watched origin p = log := by
      rw [writesOf, hfirst, hlogs.writes, List.drop_left]
    rw [← hwrites] at hlogs' hplaces
    exact ⟨⟨w', hfirst⟩, hlogs', hplaces, hkeys, u, u', hu, hrun, fun _ => rfl⟩
  · rintro e u' ⟨e', w', hfirst, -⟩ ⟨w'', hable⟩
    cases hfirst.symm.trans hable

/-- A world has the objects of plans as an original world has them, and enough keys for all plans that
are new to that one. -/
structure AwaitsAll (watched : NameSet) (origin : World) (plans : List Plan) (u : World) : Prop where
  calm : u.Calm watched
  clock : u.clock = origin.clock
  objects : ∀ p ∈ plans, ∀ {k ref}, p.1.Names k ref → u.store.find? k ref = origin.store.find? k ref
  new : ∀ n, u.keys ≤ n → n < u.keys + 2 * plans.length → (KeyPair.generate n).NewIn origin.store

theorem AwaitsAll.awaits (hu : AwaitsAll watched origin plans u) (hp : p ∈ plans) :
  Awaits watched origin p u
  := by
  refine ⟨hu.calm, hu.clock, hu.objects p hp, ?_⟩
  have hlength := List.length_pos_of_mem hp
  apply hu.new u.keys (Nat.le_refl _)
  omega

/-- The stages of one plan leave the others awaited. -/
theorem PlanRun.awaitsAll (h : PlanRun watched origin p u u') (hu : AwaitsAll watched origin (p :: plans) u)
    (hapart : ∀ q ∈ plans, p.1.Apart q.1) :
  AwaitsAll watched origin plans u'
  := by
  obtain ⟨hfrom, hto⟩ := h.keys
  refine ⟨h.logs.calm, h.logs.clock.trans hu.clock, ?_, ?_⟩
  · intro q hq k ref hnames
    rw [h.logs.others, hu.objects q (List.mem_cons_of_mem _ hq) hnames]
    rintro x hx ⟨rfl, rfl⟩
    exact hapart q hq _ _ (h.places x hx) hnames
  · intro n hn hlater
    have hlength : (p :: plans).length = plans.length + 1 := List.length_cons
    apply hu.new n (Nat.le_trans hfrom hn)
    omega

/-- The stages of one plan, and then those of the others. -/
theorem PlanRun.cons {u'' : World} (h : PlanRun watched origin p u u')
    (hrest : PlansRun watched origin plans u' u'') (hapart : ∀ q ∈ plans, p.1.Apart q.1) :
  PlansRun watched origin (p :: plans) u u''
  := by
  refine ⟨?_, ?_, ?_, ?_⟩
  · rw [List.forall_mem_cons]
    exact ⟨h.able, hrest.able⟩
  · rw [List.flatMap_cons]
    apply h.logs.trans hrest.logs
  · rw [List.forall_mem_cons]
    exact ⟨h.places, hrest.places⟩
  · rw [List.forall_mem_cons]
    refine ⟨?_, hrest.carried⟩
    -- The other plans have written other objects.
    apply h.carried.of_find?
    intro k ref hnames
    apply hrest.logs.others
    rintro x hx ⟨rfl, rfl⟩
    obtain ⟨q, hq, hxq⟩ := List.mem_flatMap.mp hx
    exact hapart q hq _ _ hnames (hrest.places q hq x hxq)

/-- The stages of plans that have no object in common go through exactly if those of each plan go through
where they are carried out first. -/
theorem leads_plansRun (hfit : ∀ p ∈ plans, Fit watched origin.store p)
    (horigin : ∀ p ∈ plans, Awaits watched origin p origin)
    (hapart : plans.Pairwise (fun p q => p.1.Apart q.1)) (hu : AwaitsAll watched origin plans u) :
  (plans.forM (planStages watched)).Leads (fun _ u' => PlansRun watched origin plans u u')
    (fun _ _ => ∃ p ∈ plans, ¬ Able watched origin p) u
  := by
  induction plans generalizing u with
  | nil =>
    apply Procedure.safe_pure
    refine ⟨?_, hu.calm.logs, ?_, ?_⟩ <;> exact List.forall_mem_nil _
  | cons p plans ih =>
    obtain ⟨hfirst, hrest⟩ := List.pairwise_cons.mp hapart
    have hmem : p ∈ p :: plans := List.mem_cons_self
    apply Procedure.safe_bind
    apply (leads_planRun (hfit p hmem) (horigin p hmem) (hu.awaits hmem)).mono
    · intro _ u₁ hran
      apply (ih (fun q hq => hfit q (List.mem_cons_of_mem _ hq))
        (fun q hq => horigin q (List.mem_cons_of_mem _ hq)) hrest (hran.awaitsAll hu hfirst)).mono
      · intro _ u₂ hrans
        apply hran.cons hrans hfirst
      · rintro e u₂ ⟨q, hq, hunable⟩
        exact ⟨q, List.mem_cons_of_mem _ hq, hunable⟩
    · intro e u₁ hunable
      exact ⟨p, hmem, hunable⟩

/-! ### Plans in another order -/

theorem AwaitsAll.perm {plans' : List Plan} (hu : AwaitsAll watched origin plans u)
    (hperm : plans.Perm plans') :
  AwaitsAll watched origin plans' u
  := by
  refine ⟨hu.calm, hu.clock, fun p hp => hu.objects p (hperm.mem_iff.mpr hp), ?_⟩
  rw [← hperm.length_eq]
  apply hu.new

/-- In whatever order plans with no object in common are carried out, they all go through or not. -/
theorem pairs_plansRun {plans' : List Plan} (hperm : plans.Perm plans')
    (hfit : ∀ p ∈ plans, Fit watched w.store p)
    (hapart : plans.Pairwise (fun p q => p.1.Apart q.1)) (hw : AwaitsAll watched w plans w)
    (hv : AwaitsAll watched w plans v) :
  Pairs (plans.forM (planStages watched)) (plans'.forM (planStages watched))
    (fun _ _ w' v' => PlansRun watched w plans w w' ∧ PlansRun watched w plans' v v')
    (fun _ _ _ _ => True) w v
  := by
  have hapart' : plans'.Pairwise (fun p q => p.1.Apart q.1) := by
    apply (hperm.pairwise_iff _).mp hapart
    intro p q hpq k ref hq hp
    exact hpq k ref hp hq
  have hleft := leads_plansRun hfit (fun p hp => hw.awaits hp) hapart hw
  have hright := leads_plansRun (fun p hp => hfit p (hperm.mem_iff.mpr hp))
    (fun p hp => hw.awaits (hperm.mem_iff.mpr hp)) hapart' (hv.perm hperm)
  apply (pairs_of_agree hleft hright _ _).mono
  · intro _ _ w' v' hran
    apply hran
  · intros
    trivial
  · rintro _ e w' v' hran ⟨p, hp, hunable⟩
    exact hunable (hran.able p (hperm.mem_iff.mpr hp))
  · rintro e _ w' v' ⟨p, hp, hunable⟩ hran
    exact hunable (hran.able p (hperm.mem_iff.mp hp))

/-- Two passes that began with the same objects have done the same work: they have made the same writes to
the objects of their definitions, in some order, they have left what they did not write, and the objects of
each definition are the same, but for versions and for new certificates and keys. -/
structure SameWork (definitions : List Definition) (w v w' v' : World) : Prop where
  writes : ∃ log log', w'.store.writes = w.store.writes ++ log ∧ v'.store.writes = v.store.writes ++ log'
    ∧ log.Perm log' ∧ (∀ x ∈ log, Definition.Named definitions x.kind x.ref)
    ∧ ∀ k ref, (∀ x ∈ log, ¬ (k = x.kind ∧ ref = x.ref)) →
      w'.store.find? k ref = w.store.find? k ref ∧ v'.store.find? k ref = w.store.find? k ref
  alike : ∀ d ∈ definitions, ∀ kept, d.stages = .ok kept →
    PlanAlike w.clock w'.store v'.store (d, kept)

/-- Plans that were carried out in two orders have done the same work. -/
theorem PlansRun.sameWork {plans' : List Plan} (hperm : plans.Perm plans')
    (hplans : preflight watched definitions = .ok plans) (hfit : ∀ p ∈ plans, Fit watched w.store p)
    (hstore : v.store = w.store) (h : PlansRun watched w plans w w')
    (h' : PlansRun watched w plans' v v') :
  SameWork definitions w v w' v'
  := by
  have hlogs : (plans.flatMap (writesOf watched w)).Perm (plans'.flatMap (writesOf watched w)) :=
    hperm.flatMap_right _
  constructor
  · refine ⟨_, _, h.logs.writes, h'.logs.writes, hlogs, ?_, ?_⟩
    · intro x hx
      obtain ⟨p, hp, hxp⟩ := List.mem_flatMap.mp hx
      exact ⟨p.1, (mem_of_preflight hplans hp).1, h.places p hp x hxp⟩
    · intro k ref hother
      constructor
      · apply h.logs.others hother
      · rw [← hstore]
        apply h'.logs.others
        intro x hx
        apply hother x (hlogs.mem_iff.mpr hx)
  · intro d hd kept hstages
    obtain ⟨p, hp, rfl, hkept⟩ := exists_plan hplans hd
    cases hstages.symm.trans hkept
    apply (h.carried p hp).planAlike (hfit p hp) (h'.carried p (hperm.mem_iff.mp hp))

/-- Definitions that have no object in common are given to two passes in different orders. The passes begin
with the same objects, stored under their names, at the same time, with caches that are caught up and keys
that are new. Then both go through or none of them, and if they go through, they do the same work. -/
theorem sync_perm (hperm : definitions.Perm definitions')
    (hapart : definitions.Pairwise Definition.Apart) (hw : w.Calm watched) (hv : v.Calm watched)
    (hstore : v.store = w.store) (hclock : v.clock = w.clock)
    (hnamed : ∀ {k ref} {o : Object k}, Definition.Named definitions k ref →
      w.store.find? k ref = some o → o.name = ref.name)
    (hnew : ∀ n, w.keys ≤ n → n < w.keys + 2 * definitions.length → (KeyPair.generate n).NewIn w.store)
    (hnew' : ∀ n, v.keys ≤ n → n < v.keys + 2 * definitions.length → (KeyPair.generate n).NewIn v.store) :
  Pairs (sync watched definitions) (sync watched definitions')
    (fun _ _ w' v' => SameWork definitions w v w' v') (fun _ _ _ _ => True) w v
  := by
  rw [sync_eq, sync_eq]
  apply pairs_bind
  cases hplans : preflight watched definitions with
  | error e =>
    cases hplans' : preflight watched definitions' with
    | error e' => apply pairs_throw trivial
    | ok plans' =>
      obtain ⟨plans, hok, -⟩ := exists_mapM_of_perm hperm.symm hplans'
      cases hplans.symm.trans hok
  | ok plans =>
    obtain ⟨plans', hplans', hperm'⟩ := exists_mapM_of_perm hperm hplans
    have hdefinitions := map_fst_of_preflight hplans
    have hfit : ∀ p ∈ plans, Fit watched w.store p := by
      intro p hp
      obtain ⟨hd, hstages, hwatched⟩ := mem_of_preflight hplans hp
      exact ⟨hstages, fun hnames => hwatched _ hnames.mem_namespaces,
        fun hnames => hnamed ⟨p.1, hd, hnames⟩⟩
    rw [← hdefinitions, List.pairwise_map] at hapart
    rw [← hdefinitions, List.length_map] at hnew hnew'
    rw [hstore] at hnew'
    have hwaits : AwaitsAll watched w plans w := ⟨hw, rfl, fun _ _ _ _ _ => rfl, hnew⟩
    have hvaits : AwaitsAll watched w plans v := by
      refine ⟨hv, hclock, ?_, hnew'⟩
      intro p hp k ref hnames
      rw [hstore]
    rw [show preflight watched definitions' = .ok plans' from hplans']
    apply pairs_pure
    apply (pairs_plansRun hperm' hfit hapart hwaits hvaits).mono
    · rintro _ _ w' v' ⟨h, h'⟩
      apply PlansRun.sameWork hperm' hplans hfit hstore h h'
    · intro e e' w' v' hstop
      apply hstop

/-- In an empty store the two sample definitions may be brought in line in either order, also with other
keys. -/
theorem sync_perm_of_sample :
  ∃ (d e : Definition) (w v w' v' : World), Definition.sample "pki" "api" = [d, e]
    ∧ v.store = w.store ∧ v.keys ≠ w.keys
    ∧ World.run (sync (NameSet.ofNames ["pki"]) [d, e]) w = (.ok (), w')
    ∧ World.run (sync (NameSet.ofNames ["pki"]) [e, d]) v = (.ok (), v')
    ∧ SameWork [d, e] w v w' v'
  := by
  obtain ⟨d, e, hsample⟩ : ∃ d e, Definition.sample "pki" "api" = [d, e] := ⟨_, _, rfl⟩
  have hshown : Shown (Instant.ofSeconds 0) := shown_ofSeconds 0
  obtain ⟨w', hrun, -⟩ := exists_run_sample "pki" "api" (by decide) (by decide) hshown
    (issuable_sample_api 0 (by decide))
  rw [hsample] at hrun
  let w : World := { store := Store.new ["pki"], clock := Instant.ofSeconds 0 }
  let v : World := { w with keys := 4 }
  have hcalm : w.Calm (NameSet.ofNames ["pki"]) := World.calm_new ["pki"] _
  have hcalm' : v.Calm (NameSet.ofNames ["pki"]) :=
    ⟨hcalm.faults, hcalm.snapshot, hcalm.held, hcalm.watches, hcalm.caughtUp⟩
  have hnone : ∀ k ref, w.store.find? k ref = none := Store.find?_new ["pki"]
  have hnew : ∀ n, (KeyPair.generate n).NewIn w.store := by
    rintro n commonName validity ca - ⟨text, certs, cert, htext, -⟩
    cases htext with
    | secret hfind _ => cases (hnone _ _).symm.trans hfind
    | configMap hfind _ => cases (hnone _ _).symm.trans hfind
  have hapart : [d, e].Pairwise Definition.Apart :=
    List.pairwise_pair.mpr (fun k ref hnames => alone_sample hsample hnames)
  have hpairs : Pairs (sync (NameSet.ofNames ["pki"]) [d, e]) (sync (NameSet.ofNames ["pki"]) [e, d])
      (fun _ _ w' v' => SameWork [d, e] w v w' v') (fun _ _ _ _ => True) w v := by
    apply sync_perm (List.Perm.swap e d []) hapart hcalm hcalm' rfl rfl
    · intro k ref o _ hfind
      cases (hnone k ref).symm.trans hfind
    · intro n _ _
      apply hnew
    · intro n _ _
      apply hnew
  obtain ⟨⟨result, v'⟩, hother⟩ :
      ∃ run, World.run (sync (NameSet.ofNames ["pki"]) [e, d]) v = run := ⟨_, rfl⟩
  rw [pairs_iff, hrun, hother] at hpairs
  cases result with
  | error e => cases hpairs
  | ok _ => exact ⟨d, e, w, v, w', v', hsample, rfl, by decide, hrun, hother, hpairs⟩

end Manager

end CertKeeper
