import CertKeeper.Proofs.Cluster.Lag
import CertKeeper.Proofs.Definition.Sample
import CertKeeper.Proofs.Manager.PassLog
import CertKeeper.Proofs.Manager.Uncached

/-!
# Conflicts of a pass with itself

While nobody else writes, a pass can only conflict with its own writes: it takes a copy of a secret from
a cache that lags behind what the pass itself has stored, and stores another version over that copy. A
bundle is read again when that happens, and a secret is not. So a conflict needs a secret that several
stages are for, that an earlier one of them has written, and whose cache lags
(`Manager.sync_without_conflict`).
-/

namespace CertKeeper

/-- The secrets that the stages of a definition are for, one by one. A target counts only beside a
bundle. -/
def Definition.secrets (d : Definition) : List ResourceRef :=
  d.signer :: (match d.bundle with
    | none => []
    | some _ => d.target.toList)

/-- The secrets of a valid definition are those of its stages. -/
theorem Definition.secrets_of_stages {d : Definition} {kept : Stages} (h : d.stages = .ok kept) :
  d.secrets = match kept with
    | .signer => [d.signer]
    | .signerAndBundle _ => [d.signer]
    | .full _ leaf => [d.signer, leaf.secret]
  := by
  have hkept := of_stages h
  unfold secrets
  cases kept with
  | signer => rw [hkept]
  | signerAndBundle bundle =>
    rw [hkept.1, hkept.2]
    rfl
  | full bundle leaf =>
    rw [hkept.1, hkept.2]
    rfl

/-- An update came too late, and that was the end. -/
def Stop.IsConflict : Stop → Prop
  | error cause => cause.isConflict = true
  | overflow => False

theorem Stop.IsConflict.isRefusal {e : Stop} (h : e.IsConflict) :
  e.IsRefusal
  := by
  cases e with
  | error cause =>
    cases cause with
    | api failure => trivial
    | _ => cases h
  | overflow => exact h.elim

namespace Manager

variable {l : Lag} {q : Quiet} {h h' : History} {ref bundle : ResourceRef} {ca : Authority}
variable {d : Definition} {leaf : Leaf} {copy : Option ConfigMap} {stop : Stop → History → Prop}

/-! ### Bundles -/

/-- The certificates are to be trusted for an authority, which comes first. -/
def Heads (ca : Authority) (certs : List TrustedCertificate) : Prop :=
  ∃ rest, certs = ca.trusted :: rest ∧ ∀ cert ∈ certs, cert.Genuine

/-- The publication of any copy of a bundle goes through, or does nothing. -/
theorem quietly_publishCopy (hca : ca.Loaded) (ho : h.Orderly q) (hname : ∀ m ∈ copy, m.name = bundle.name) :
  (Bundle.publish bundle ca copy).Quietly q
    (fun certs h' => Heads ca certs ∧ ∃ log, h.Extends (History.only .configMap bundle) log h')
    (fun _ h' => h.Rests q h') h
  := by
  apply Procedure.safe_bind
  apply Procedure.quietly_clock ho
  intro h₁ hrests₁ ho₁
  obtain ⟨certs, hcerts⟩ : ∃ certs, certs = Bundle.merge h₁.clock ca.trusted (Bundle.listed copy) :=
    ⟨_, rfl⟩
  have hheads : Heads ca certs := by
    refine ⟨_, hcerts.trans (Bundle.merge_eq _ _ _), ?_⟩
    rw [hcerts]
    intro cert hcert
    apply Bundle.genuine_of_mem_merge hca.genuine hcert
  have hreported : ∀ {h₂ h₃ : History} {o : ConfigMap}, h₁.Rests q h₂ → h₂.Wrote bundle o h₃ →
      h₃.Orderly q → ∀ (stored : ConfigMap) (reason action note : String),
      (do
        Procedure.publish stored reason action note
        return certs : Procedure (List TrustedCertificate)).Quietly q
        (fun certs h' => Heads ca certs ∧ ∃ log, h.Extends (History.only .configMap bundle) log h')
        (fun _ h' => h.Rests q h') h₃ := by
    intro h₂ h₃ o hrests₂ hw ho₃ stored reason action note
    apply Procedure.safe_bind
    apply Procedure.quietly_publish ho₃
    intro h₄ hrests₄
    apply Procedure.safe_pure
    exact ⟨hheads, _, (hw.extends_of_rests (hrests₁.trans hrests₂) rfl).rests hrests₄⟩
  simp only [Bundle.listed_eq, ← hcerts]
  split
  · apply Procedure.safe_pure
    exact ⟨hheads, [], hrests₁.extends _⟩
  · cases copy with
    | some m =>
      have hnamed : (Bundle.rewritten bundle (some m) certs).name = bundle.name := hname m rfl
      apply Procedure.safe_bind
      apply Procedure.quietly_tryUpdate ho₁ hnamed
      · intro h₂ h₃ hrests₂ ho₃ hw
        apply hreported hrests₂ hw ho₃
      · intro h₂ e hrests₂
        apply hrests₁.trans hrests₂
    | none =>
      have hnamed : (Bundle.rewritten bundle none certs).name = bundle.name := rfl
      apply Procedure.safe_bind
      apply Procedure.quietly_tryCreate ho₁ hnamed
      · intro h₂ h₃ hrests₂ ho₃ hw
        apply hreported hrests₂ hw ho₃
      · intro h₂ e hrests₂
        apply hrests₁.trans hrests₂

/-- A bundle that has changed is read again, so that its publication does not end with a conflict. -/
theorem quietly_attempt (hca : ca.Loaded) (ho : h.Orderly q) (hname : ∀ m ∈ copy, m.name = bundle.name) :
  (tryCatch (Bundle.publish bundle ca copy) (Bundle.retry bundle ca)).Quietly q
    (fun certs h' => Heads ca certs ∧ ∃ log, h.Extends (History.only .configMap bundle) log h')
    (fun e _ => ¬ e.IsConflict) h
  := by
  apply Procedure.safe_tryCatch
  apply Procedure.safe_weaken (quietly_publishCopy hca ho hname)
  · intro certs h₁ hok
    apply hok
  · intro e h₁ hrests₁
    unfold Bundle.retry
    split
    · rename_i cause
      split
      · apply Procedure.safe_bind
        apply Procedure.quietly_find (ho.rests hrests₁)
        intro h₂ hrests₂
        have hrests := hrests₁.trans hrests₂
        rw [← hrests₂.store]
        apply Procedure.safe_mono (quietly_publishBundle hca (ho.rests hrests))
        rintro certs h₃ ⟨log, hb⟩
        exact ⟨hb.first, log, (hrests.extends _).trans hb.appends⟩
      · rename_i hother
        apply Procedure.safe_throw
        intro hconflict
        apply hother
        rw [show cause.isConflict = true from hconflict]
        rfl
    · exact Procedure.safe_throw id

/-- Whatever copy the cache of a bundle shows, its stage does not end with a conflict. -/
theorem lagging_bundleStage (hca : ca.Loaded) (hs : h.Stems l)
    (hwatched : l.quiet.watched.contains bundle.ns) :
  (bundleStage l.quiet.watched bundle ca).Lagging l
    (fun certs h' => Heads ca certs ∧ ∃ log, h.Extends (History.only .configMap bundle) log h')
    (fun e _ => ¬ e.IsConflict) h
  := by
  have hattempt : ∀ {h₁ : History} {copy : Option ConfigMap}, h.Rests l.quiet h₁ →
      (∀ m ∈ copy, m.name = bundle.name) →
      (tryCatch (Bundle.publish bundle ca copy) (Bundle.retry bundle ca)).Lagging l
        (fun certs h' => Heads ca certs ∧ ∃ log, h.Extends (History.only .configMap bundle) log h')
        (fun e _ => ¬ e.IsConflict) h₁ := by
    intro h₁ copy hrests₁ hname
    have hs₁ := hs.rests hrests₁
    apply (Bundle.uncached_attempt bundle ca copy).lagging hs₁
    apply Procedure.safe_mono (quietly_attempt hca hs₁.orderly hname)
    rintro certs h₂ ⟨hheads, log, hextends⟩
    exact ⟨hheads, log, (hrests₁.extends _).trans hextends⟩
  rw [bundleStage_eq hwatched, Bundle.ensure_eq]
  apply Procedure.safe_bind
  apply Procedure.safe_bind
  apply Procedure.lagging_cached hs hwatched
  intro h₁ copy hrests₁ hs₁ hshows
  cases copy with
  | some m =>
    apply Procedure.safe_pure
    apply hattempt hrests₁
    rintro m' ⟨⟩
    apply hs₁.named_of_shows hshows
  | none =>
    apply (Procedure.uncached_find bundle).lagging hs₁
    apply Procedure.quietly_find hs₁.orderly
    intro h₂ hrests₂
    apply hattempt (hrests₁.trans hrests₂)
    intro m hm
    apply hs₁.orderly.named hm

/-! ### Secrets -/

/-- A secret that the cache shows fairly is prepared as in quiet surroundings. -/
theorem lagging_prepareSecret (hs : h.Stems l) (hwatched : l.quiet.watched.contains ref.ns)
    (hfair : h.Fair l .secret ref) (policy : Policy) :
  (prepareSecret l.quiet.watched ref policy).Lagging l
    (fun copy h' => ∃ log, Opened l.quiet ref policy h copy log h') stop h
  := by
  have hensure : (ensureSecret ref).Lagging l
      (fun copy h' => ∃ log, Ensured ref (h.store.find? .secret ref) copy log
        ∧ h.Extends (History.only .secret ref) log h' ∧ h'.store.find? .secret ref = some copy)
      stop h := by
    rw [ensureSecret_eq]
    apply Procedure.safe_bind
    apply Procedure.lagging_cached hs hwatched
    intro h₁ copy hrests₁ hs₁ hshows
    cases copy with
    | some s =>
      obtain hnone | hlive := hfair.rests hrests₁ _ hshows
      · cases hnone
      · apply Procedure.safe_pure
        refine ⟨[], ?_, hrests₁.extends _, hlive.symm⟩
        rw [← hrests₁.store, ← hlive]
        apply Ensured.found
    | none =>
      apply (uncached_createSecret ref).lagging hs₁
      apply Procedure.safe_mono (quietly_createSecret hs₁.orderly)
      rintro copy h₂ ⟨log, hensured, hextends, hlive⟩
      rw [hrests₁.store] at hensured
      exact ⟨log, hensured, (hrests₁.extends _).trans hextends, hlive⟩
  rw [prepareSecret_eq policy hwatched]
  apply Procedure.safe_bind_keeps hs hensure
  rintro copy h₁ hs₁ ⟨log, hensured, hextends, hlive⟩
  apply (uncached_ensurePolicy copy ref policy).lagging hs₁
  apply quietly_ensurePolicy hs₁.orderly policy hensured hextends hlive

/-- The signer stage of a secret that the cache shows fairly does not end with a conflict. -/
theorem lagging_signerStage (hs : h.Stems l) (hwatched : l.quiet.watched.contains d.signer.ns)
    (hfair : h.Fair l .secret d.signer) :
  (signerStage l.quiet.watched d).Lagging l
    (fun ca h' => ca.Loaded ∧ ∃ log, h.Extends (History.only .secret d.signer) log h')
    (fun e _ => ¬ e.IsConflict) h
  := by
  apply Procedure.safe_bind_keeps hs (lagging_prepareSecret hs hwatched hfair d.signerPolicy)
  rintro copy h₁ hs₁ ⟨log, hopened⟩
  apply (SignerRequest.uncached_ensure rfl).lagging hs₁
  apply Procedure.safe_weaken (quietly_ensureSigner hs₁.orderly hopened)
  · rintro ca h₂ ⟨log, hcommits⟩
    exact ⟨hcommits.loaded, log, hcommits.appends⟩
  · intro e h₂ hrefusal hconflict
    exact hrefusal hconflict.isRefusal

/-- The leaf stage of a secret that the cache shows fairly does not end with a conflict. -/
theorem lagging_leafStage {certs : List TrustedCertificate} (hs : h.Stems l)
    (hwatched : l.quiet.watched.contains leaf.secret.ns) (hfair : h.Fair l .secret leaf.secret)
    (hheads : Heads ca certs) :
  (leafStage l.quiet.watched leaf ca certs).Lagging l
    (fun _ h' => ∃ log, h.Extends (History.only .secret leaf.secret) log h')
    (fun e _ => ¬ e.IsConflict) h
  := by
  obtain ⟨rest, rfl, hgenuine⟩ := hheads
  apply Procedure.safe_bind_keeps hs (lagging_prepareSecret hs hwatched hfair leaf.policy)
  rintro copy h₁ hs₁ ⟨log, hopened⟩
  apply (LeafStage.uncached_ensure rfl ca _).lagging hs₁
  apply Procedure.safe_weaken (quietly_ensureLeaf hs₁.orderly hopened hgenuine)
  · rintro _ h₂ ⟨log, hcommits⟩
    exact ⟨log, hcommits.appends⟩
  · intro e h₂ hrefusal hconflict
    exact hrefusal hconflict.isRefusal

/-! ### Passes -/

/-- Several stages are for a secret whose cache lags behind what was written. -/
def Contended (l : Lag) (secrets : List ResourceRef) (h : History) : Prop :=
  ∃ ref, 2 ≤ secrets.count ref ∧ h.Behind l .secret ref

/-- The secrets that stages have been for are the only ones that have been written. -/
def WithinDone (done : List ResourceRef) (h : History) : Prop :=
  ∀ ref, ref ∉ done → h.Untouched .secret ref

variable {secrets done todo : List ResourceRef}

theorem WithinDone.extends {k : Kind} {log : List Commit} (hdone : WithinDone done h)
    (hextends : h.Extends (History.only k ref) log h') (hk : k = .secret → ref ∈ done) :
  WithinDone done h'
  := by
  intro ref' hnot
  apply hextends.untouched _ (hdone ref' hnot)
  rintro ⟨rfl, rfl⟩
  exact hnot (hk rfl)

theorem WithinDone.append (hdone : WithinDone done h) (more : List ResourceRef) :
  WithinDone (done ++ more) h
  := by
  intro ref hnot
  apply hdone
  intro hmem
  exact hnot (List.mem_append_left _ hmem)

/-- A secret that no stage has been for before is shown fairly, unless there is contention. -/
theorem fair_or_contended (hs : h.Stems l) (hdone : WithinDone done h)
    (hsecrets : secrets = done ++ ref :: todo) :
  h.Fair l .secret ref ∨ Contended l secrets h
  := by
  rcases hs.fair_or_behind .secret ref with hfair | hbehind
  · exact .inl hfair
  · right
    refine ⟨ref, ?_, hbehind⟩
    have hmem : ref ∈ done := by
      apply Classical.byContradiction
      intro hnot
      exact hbehind.touched (hdone ref hnot)
    have hbefore := List.count_pos_iff.mpr hmem
    rw [hsecrets, List.count_append, List.count_cons_self]
    omega

/-- Contention does not go away, whatever is done. -/
theorem lagging_contended {α : Type} {p : Procedure α} {ok : α → History → Prop} (hs : h.Stems l)
    (hcontended : Contended l secrets h) (hok : ∀ a h', Contended l secrets h' → ok a h') :
  p.Lagging l ok (fun e h' => e.IsConflict → Contended l secrets h') h
  := by
  have hstays : p.Lagging l (fun _ h' => Contended l secrets h') (fun _ h' => Contended l secrets h') h := by
    apply Procedure.lagging_of_step _ hs hcontended
    rintro h r answer h' ⟨ref, hcount, hbehind⟩ hlagging
    refine ⟨ref, hcount, hbehind.lags, hbehind.shown, ?_⟩
    intro huntouched
    exact hbehind.touched (History.untouched_of_lagging hlagging huntouched)
  apply Procedure.safe_weaken hstays hok
  intro e h' hcontended _
  apply hcontended

/-- A stage for a secret goes through, or there is contention. -/
theorem lagging_stage {α : Type} {p : Procedure α} {good : α → Prop} (hs : h.Stems l)
    (hdone : WithinDone done h) (hsecrets : secrets = done ++ ref :: todo)
    (hstage : h.Fair l .secret ref →
      p.Lagging l (fun a h' => good a ∧ ∃ log, h.Extends (History.only .secret ref) log h')
        (fun e _ => ¬ e.IsConflict) h) :
  p.Lagging l (fun a h' => Contended l secrets h' ∨ good a ∧ WithinDone (done ++ [ref]) h')
    (fun e h' => e.IsConflict → Contended l secrets h') h
  := by
  rcases fair_or_contended hs hdone hsecrets with hfair | hcontended
  · apply Procedure.safe_weaken (hstage hfair)
    · rintro a h' ⟨hgood, log, hextends⟩
      refine .inr ⟨hgood, (hdone.append [ref]).extends hextends ?_⟩
      intro _
      apply List.mem_append_right _ List.mem_cons_self
    · intro e h' hnone hconflict
      exact absurd hconflict hnone
  · apply lagging_contended hs hcontended
    intro a h' hcontended
    exact .inl hcontended

/-- The stages of a definition go through, or there is contention. -/
theorem lagging_planStages {p : Plan} (hs : h.Stems l) (hstages : p.1.stages = .ok p.2)
    (hwatched : ∀ ns ∈ p.1.namespaces, l.quiet.watched.contains ns) (hdone : WithinDone done h)
    (hsecrets : secrets = done ++ p.1.secrets ++ todo) :
  (planStages l.quiet.watched p).Lagging l
    (fun _ h' => Contended l secrets h' ∨ WithinDone (done ++ p.1.secrets) h')
    (fun e h' => e.IsConflict → Contended l secrets h') h
  := by
  obtain ⟨d, kept⟩ := p
  have hin : ∀ {k ref}, d.Names k ref → l.quiet.watched.contains ref.ns :=
    fun hnames => hwatched _ hnames.mem_namespaces
  have hstop : ∀ {α : Type} {p : Procedure α} {ok : α → History → Prop} {h : History},
      p.Lagging l ok (fun e _ => ¬ e.IsConflict) h →
      p.Lagging l ok (fun e h' => e.IsConflict → Contended l secrets h') h := by
    intro α p ok h hp
    apply Procedure.safe_weaken hp (fun _ _ hok => hok)
    intro e h' hnone hconflict
    exact absurd hconflict hnone
  have hsigner : secrets = done ++ d.signer :: (d.secrets.tail ++ todo) := by
    rw [hsecrets, List.append_assoc]
    rfl
  apply Procedure.safe_bind_keeps hs
    (lagging_stage hs hdone hsigner (fun hfair => lagging_signerStage hs (hin .signer) hfair))
  rintro ca h₁ hs₁ (hcontended | ⟨hca, hdone₁⟩)
  · apply lagging_contended hs₁ hcontended
    intro _ h₂ hcontended
    exact .inl hcontended
  · have hkept := Definition.secrets_of_stages hstages
    cases kept with
    | signer =>
      apply Procedure.safe_pure
      right
      rw [hkept]
      apply hdone₁
    | signerAndBundle bundle =>
      have hnames : d.Names .configMap bundle := .bundle (Definition.of_stages hstages).1
      apply Procedure.safe_bind_keeps hs₁ (hstop (lagging_bundleStage hca hs₁ (hin hnames)))
      rintro certs h₂ _ ⟨-, log, hextends⟩
      apply Procedure.safe_pure
      right
      rw [hkept]
      apply hdone₁.extends hextends nofun
    | full bundle leaf =>
      have hnames : d.Names .configMap bundle := .bundle (Definition.of_stages hstages).1
      apply Procedure.safe_bind_keeps hs₁ (hstop (lagging_bundleStage hca hs₁ (hin hnames)))
      rintro certs h₂ hs₂ ⟨hheads, log, hextends⟩
      have hdone₂ := hdone₁.extends hextends nofun
      have hleaf : secrets = (done ++ [d.signer]) ++ leaf.secret :: todo := by
        rw [hsecrets, hkept]
        simp
      have hstage : (leafStage l.quiet.watched leaf ca certs).Lagging l
          (fun _ h' => Contended l secrets h' ∨ True ∧ WithinDone ((done ++ [d.signer]) ++ [leaf.secret]) h')
          (fun e h' => e.IsConflict → Contended l secrets h') h₂ := by
        apply lagging_stage hs₂ hdone₂ hleaf
        intro hfair
        apply Procedure.safe_mono (lagging_leafStage hs₂ (hin (.of_stages hstages)) hfair hheads)
        intro _ h₃ hextends
        exact ⟨trivial, hextends⟩
      apply Procedure.safe_mono hstage
      rintro _ h₃ (hcontended | ⟨-, hdone₃⟩)
      · exact .inl hcontended
      · right
        rw [hkept]
        simpa using hdone₃

/-- The stages of all definitions go through, or there is contention. -/
theorem lagging_forM {plans : List Plan} (hs : h.Stems l)
    (hplans : ∀ p ∈ plans, p.1.stages = .ok p.2
      ∧ ∀ ns ∈ p.1.namespaces, l.quiet.watched.contains ns)
    (hdone : WithinDone done h) (hsecrets : secrets = done ++ plans.flatMap (fun p => p.1.secrets)) :
  (plans.forM (planStages l.quiet.watched)).Lagging l (fun _ _ => True)
    (fun e h' => e.IsConflict → Contended l secrets h') h
  := by
  induction plans generalizing done h with
  | nil =>
    apply Procedure.safe_pure
    trivial
  | cons p plans ih =>
    obtain ⟨hstages, hwatched⟩ := hplans p List.mem_cons_self
    rw [List.flatMap_cons, ← List.append_assoc] at hsecrets
    apply Procedure.safe_bind_keeps hs (lagging_planStages hs hstages hwatched hdone hsecrets)
    rintro _ h₁ hs₁ (hcontended | hdone₁)
    · apply lagging_contended hs₁ hcontended
      intro _ h₂ _
      trivial
    · apply ih hs₁ (fun p' hp' => hplans p' (List.mem_cons_of_mem _ hp')) hdone₁ hsecrets

/-- A pass begins while all caches are caught up, nobody else writes and no call fails without cause. The
cache of each object shows what the pass writes at once, late or only afterwards. Such a pass does not end
with a conflict, unless it has written a secret that several stages are for and whose cache lags. A cache
that shows nothing of a secret until the end does no harm. -/
theorem sync_without_conflict {watched : NameSet} {definitions : List Definition} {plans : List Plan}
    {store : Store} {now : Instant} {delivery : Kind → ResourceRef → Delivery}
    {result : Except Stop Unit}
    (hvalid : preflight watched definitions = .ok plans)
    (hnamed : ∀ {k ref} {o : Object k}, store.find? k ref = some o → o.name = ref.name)
    (hyields : Program.Yields (History.lagging ⟨{ watched := watched }, store, delivery⟩)
      (sync watched definitions).run (History.start store now) result h')
    (hshared : ∀ ref, 2 ≤ (definitions.flatMap Definition.secrets).count ref →
      delivery .secret ref = .atOnce
        ∨ delivery .secret ref = .afterwards ∧ store.find? .secret ref = none
        ∨ h'.Untouched .secret ref) :
  ∀ e, result = .error (.error e) → e.isConflict = false
  := by
  have hsecrets : definitions.flatMap Definition.secrets = [] ++ plans.flatMap (fun p => p.1.secrets) := by
    rw [← map_fst_of_preflight hvalid, List.flatMap_map]
    rfl
  have hpass : (sync watched definitions).Lagging ⟨{ watched := watched }, store, delivery⟩
      (fun _ _ => True)
      (fun e h' => e.IsConflict →
        Contended ⟨{ watched := watched }, store, delivery⟩ (definitions.flatMap Definition.secrets) h')
      (History.start store now) := by
    rw [sync_eq, hvalid]
    apply lagging_forM (History.stems_start hnamed now) _ _ hsecrets
    · intro p hp
      apply (mem_of_preflight hvalid hp).2
    · intro ref _ o _ hmem
      cases hmem
  rintro e rfl
  apply Bool.eq_false_iff.mpr
  intro hconflict
  -- What the contention is about is excluded.
  obtain ⟨ref, hcount, hbehind⟩ := (Procedure.safe_iff.mp hpass).of_yields hyields hconflict
  rcases hshared ref hcount with hatOnce | ⟨hafterwards, hnone⟩ | huntouched
  · exact hbehind.lags hatOnce
  · exact hbehind.shown hafterwards hnone
  · exact hbehind.touched huntouched

/-- A first pass over the sample definitions and over the same once more, with caches that show nothing of
what it writes. Two stages are for each secret. -/
theorem sync_without_conflict_of_sample :
  ∃ (definitions : List Definition) (plans : List Plan) (result : Except Stop Unit) (h' : History),
    definitions = Definition.sample "pki" "api" ++ Definition.sample "pki" "api"
      ∧ preflight (NameSet.ofNames ["pki"]) definitions = .ok plans
      ∧ Program.Yields
        (History.lagging ⟨{ watched := NameSet.ofNames ["pki"] }, Store.new ["pki"], fun _ _ => .afterwards⟩)
        (sync (NameSet.ofNames ["pki"]) definitions).run (History.start (Store.new ["pki"]) (.ofSeconds 0))
        result h'
      ∧ ∀ e, result = .error (.error e) → e.isConflict = false
  := by
  let definitions := Definition.sample "pki" "api" ++ Definition.sample "pki" "api"
  let l : Lag := ⟨{ watched := NameSet.ofNames ["pki"] }, Store.new ["pki"], fun _ _ => .afterwards⟩
  have hvalid : ∃ plans, preflight (NameSet.ofNames ["pki"]) definitions = .ok plans := by
    obtain ⟨plans, hplans⟩ := preflight_sample (show "pki" ≠ "" by decide)
      (show "api" ≠ "" by decide)
    apply exists_preflight
    intro d hd
    obtain ⟨p, hp, rfl, hstages⟩ := exists_plan hplans ((List.mem_append.mp hd).elim id id)
    exact ⟨⟨_, hstages⟩, (mem_of_preflight hplans hp).2.2⟩
  have hyields : ∃ result h', Program.Yields (History.lagging l)
      (sync (NameSet.ofNames ["pki"]) definitions).run
      (History.start (Store.new ["pki"]) (.ofSeconds 0)) result h' := by
    apply Program.exists_yields
    apply History.exists_lagging
    intro _ _
    trivial
  obtain ⟨plans, hplans⟩ := hvalid
  obtain ⟨result, h', hresult⟩ := hyields
  have hnone := Store.find?_new ["pki"]
  refine ⟨definitions, plans, result, h', rfl, hplans, hresult,
    sync_without_conflict hplans ?_ hresult ?_⟩
  · intro k ref o hfind
    cases (hnone k ref).symm.trans hfind
  · intro ref _
    exact .inr (.inl ⟨rfl, hnone _ ref⟩)

end Manager

end CertKeeper
