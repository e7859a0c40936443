import CertKeeper.Proofs.Cluster.Minutes
import CertKeeper.Proofs.Manager.Footprint
import CertKeeper.Proofs.Manager.PolicyChange
import CertKeeper.Proofs.Manager.Preflight

/-!
# Lifetimes beyond the calendar

A certificate is issued at the time of the clock for the lifetime of a policy, which may lead out of the
calendar. A pass overflows there and nowhere else (`Manager.sync_overflows_in_lifetime`); whether a
certificate is due never overflows. Whenever a certificate cannot be issued for a lifetime, be it for an
overflow or not, the rotation stops right after its look at the clock. So a pass leaves what a secret
holds, unless a certificate can be issued for a lifetime that is asked for the secret.
-/

namespace CertKeeper

variable {α : Type}

/-! ### Rotations that stop -/

/-- A procedure looks at the clock first, and it stops at once if no certificate can be issued then for
a lifetime. -/
def Procedure.StopsWithout (lifetime : Duration) (p : Procedure α) : Prop :=
  ∃ next, p.run = .ask .clock next
    ∧ ∀ now stop, Validity.starting now lifetime = .error stop → next now = .done (.error stop)

theorem SignerRequest.stopsWithout_rotate (r : SignerRequest) (secret : Secret) (named : Instant)
    (reason : Reason) :
  (r.rotate secret named reason).StopsWithout r.policy.lifetime
  := by
  refine ⟨_, rfl, ?_⟩
  intro now stop hstop
  simp only [Program.done_bind, Function.comp_apply, ExceptT.bindCont, hstop]
  rfl

theorem LeafStage.stopsWithout_rotate (r : LeafStage) {leaf : Leaf}
    (hrequest : r.request = Manager.leafRequest leaf) (secret : Secret) (ca : Authority)
    (trusted : List TrustedCertificate) (reason : Reason) :
  (r.rotate secret ca trusted reason).StopsWithout r.policy.lifetime
  := by
  refine ⟨_, rfl, ?_⟩
  intro now stop hstop
  have hname : ∃ name, r.request.commonName = .ok name := by
    rw [hrequest, Manager.leafRequest]
    cases leaf.identity <;> exact ⟨_, rfl⟩
  obtain ⟨name, hname⟩ := hname
  have hprepare : ca.prepare r.request now r.policy.lifetime = .error stop := by
    rw [Authority.prepare, hname, hstop]
    rfl
  simp only [Program.done_bind, Function.comp_apply, ExceptT.bindCont, hprepare]
  rfl

namespace Manager

open Procedure

/-! ### Where a pass overflows -/

/-- If there is an overflow, it is that of a lifetime which definitions ask for, from a time that the
clock has shown. -/
def Exceeded (definitions : List Definition) (stop : Stop) (past : List Exchange) : Prop :=
  stop = .overflow → ∃ ref lifetime now, Lasts definitions ref lifetime
    ∧ (⟨.clock, now⟩ : Exchange) ∈ past ∧ Validity.starting now lifetime = .error .overflow

theorem covers_exceeded (definitions : List Definition) :
  Covers (fun lifetime => ∃ ref, Lasts definitions ref lifetime) (Exceeded definitions)
  := by
  constructor
  · rintro r answer e hfails past ⟨⟩
  · rintro e hfault past ⟨⟩
  · rintro lifetime now past ⟨ref, hlasts⟩ hshown hover -
    exact ⟨ref, lifetime, now, hlasts, hshown, hover⟩

/-! ### What secrets hold -/

/-- A write of passes that began at a time. It leaves what a secret holds, unless a certificate can be
issued from then on for a lifetime that definitions ask for the secret. -/
inductive Issues (definitions : List Definition) (start : Instant) : Commit → Prop where
  | kept {replaced : Option Secret} {s : Secret} : s.content = replaced.elim {} Object.content →
      Issues definitions start ⟨.secret, replaced, s⟩
  | issued {ref : ResourceRef} {replaced : Option Secret} {s : Secret} {lifetime : Duration}
      {now : Instant} {v : Validity} : s.IsAt ref → Lasts definitions ref lifetime → ¬ now.before start →
      Validity.starting now lifetime = .ok v → Issues definitions start ⟨.secret, replaced, s⟩
  | bundle {replaced : Option ConfigMap} {m : ConfigMap} :
      Issues definitions start ⟨.configMap, replaced, m⟩

/-- What goes on outside of passes from a time on, if others may write whatever there is. -/
def crowdedSince (start : Instant) : Outside := { crowded with shows := fun t => ¬ t.before start }

variable {definitions : List Definition} {watched : NameSet} {h h' : History} {ref : ResourceRef}
variable {start : Instant} {p : Program Request.Answer (Except Stop Unit)}

theorem drift_since (hd : h.Drift crowded h') (hstart : ¬ h.clock.before start) :
  h.Drift (crowdedSince start) h'
  := by
  induction hd with
  | none => apply History.Drift.none
  | tick hd hlater _ ih =>
    have hclock := Instant.not_before_trans hd.later.clock hstart
    apply History.Drift.tick ih hlater (Instant.not_before_trans hlater hclock)
  | create _ hwrites hcreate ih => apply History.Drift.create ih hwrites hcreate
  | update _ hwrites hupdate ih => apply History.Drift.update ih hwrites hupdate

/-- The clock does not go back, so during passes it shows no time before the one at which they began. -/
theorem met_since {begun : Program Request.Answer (Except Stop Unit) → Prop}
    (hmet : Program.Met (History.step crowded) begun h p h') :
  Program.Met (History.step (crowdedSince h.clock)) begun h p h'
  := by
  have hboth : Program.Met (History.step (crowdedSince h.clock)) begun h p h'
      ∧ ¬ h'.clock.before h.clock := by
    induction hmet with
    | start hp => exact ⟨.start hp, by simp⟩
    | answered _ hstep ih =>
      obtain ⟨h₁, hd, hanswers⟩ := hstep
      have hlater := Instant.not_before_trans (hd.later.trans hanswers.later).clock ih.2
      refine ⟨ih.1.answered ⟨h₁, drift_since hd ih.2, ?_⟩, hlater⟩
      cases ‹Request› <;> exact hanswers
    | again _ hq ih => exact ⟨ih.1.again hq, ih.2⟩
  apply hboth.1

/-- Copies tell what they replace, and all writes up to now leave what a secret holds or issue. -/
structure AllIssue (definitions : List Definition) (start : Instant) (h : History) : Prop where
  coherent : h.Coherent (fun _ _ => True)
  clock : ¬ h.clock.before start
  commits : ∀ c ∈ h.commits, Issues definitions start c

namespace AllIssue

variable {o : Secret}

theorem drift (hs : AllIssue definitions start h) (hd : h.Drift (crowdedSince start) h') :
  AllIssue definitions start h'
  := by
  refine ⟨hs.coherent.drift hd, Instant.not_before_trans hd.later.clock hs.clock, ?_⟩
  rw [hd.commits]
  apply hs.commits

theorem wrote {k : Kind} {o : Object k} (hs : AllIssue definitions start h) (hw : h.Wrote ref o h')
    (hissues : Issues definitions start ⟨k, h.store.find? k ref, h.store.stamped ref.ns o⟩) :
  AllIssue definitions start h'
  := by
  refine ⟨hs.coherent.wrote hw, ?_, ?_⟩
  · rw [hw.clock]
    apply hs.clock
  · intro c hc
    rw [hw.commits] at hc
    rcases List.mem_append.mp hc with hc | hc
    · apply hs.commits c hc
    · obtain rfl := List.mem_singleton.mp hc
      apply hissues

theorem secretUpkeep (ref : ResourceRef) :
  SecretUpkeep (crowdedSince start) (AllIssue definitions start) ref
  := by
  refine ⟨fun hs hd => hs.drift hd, fun hs => hs.clock, fun hs => hs.coherent, trivial, ?_⟩
  intro h h' s hs hprepared hw
  apply hs.wrote hw
  apply Issues.kept
  apply hprepared.content_eq hs.coherent trivial

theorem passUpkeep :
  PassUpkeep (crowdedSince start) (AllIssue definitions start) definitions
  := by
  constructor
  · intro d hd
    refine ⟨secretUpkeep d.signer, ?_⟩
    intro h h' copy known now issued v seed ca hs _ _ hnow hissued hv _ hw
    apply hs.wrote hw
    exact .issued hw.isAt (.signer hd) (Instant.not_before_trans hissued hnow) hv
  · intro d bundle h ca _ _ hs _
    apply Bundle.safe_ensure_of_indifferent (fun hs hd => hs.drift hd) _ hs
    intro h h' ref m hs hw
    apply hs.wrote hw .bundle
  · intro d bundle leaf hd hstages ca trusted known
    refine ⟨secretUpkeep leaf.secret, ?_⟩
    intro h h' copy now seed issued hs _ _ hnow hsign hw
    obtain ⟨v, hv, -⟩ := Authority.serves_of_sign hsign
    apply hs.wrote hw
    exact .issued hw.isAt (.leaf hd hstages) hnow hv

end AllIssue

/-! ### The result -/

/-- Whatever it is told, a pass overflows only with a lifetime that its definitions ask for, from a time
that the clock has shown, and those are the lifetimes that lead out of the calendar. Whether a
certificate is due never overflows. A rotation stops at once if no certificate can be issued for its
lifetime. While other writers are at work and the clock goes on, passes that may be cut short change what
a secret holds only if a certificate can be issued for a lifetime that is asked for it. -/
theorem sync_overflows_in_lifetime (watched : NameSet) (definitions : List Definition) :
  (∀ {σ : Type} {step : Surroundings Request.Answer σ} {s s' : σ} {past : List Exchange},
    Program.Comes step (sync watched definitions).run s past (.done (.error .overflow)) s' →
      ∃ ref lifetime now, Lasts definitions ref lifetime ∧ (⟨.clock, now⟩ : Exchange) ∈ past
        ∧ Validity.starting now lifetime = .error .overflow)
  ∧ (∀ {now : Instant} (lifetime : Duration), Instant.firstSecond ≤ now.seconds →
    now.seconds ≤ Instant.lastSecond →
      (Validity.starting now lifetime = .error .overflow ↔ Validity.Overflows now lifetime))
  ∧ (∀ (m : Metadata) (refresh : Duration) (now : Instant), ∃ reason?, m.due? refresh now = .ok reason?)
  ∧ (∀ (r : SignerRequest) (secret : Secret) (named : Instant) (reason : SignerRequest.Reason),
    (r.rotate secret named reason).StopsWithout r.policy.lifetime)
  ∧ (∀ (r : LeafStage) (leaf : Leaf), r.request = leafRequest leaf → ∀ (secret : Secret) (ca : Authority)
    (trusted : List TrustedCertificate) (reason : LeafStage.Reason),
      (r.rotate secret ca trusted reason).StopsWithout r.policy.lifetime)
  ∧ ∀ {h h' : History} {p : Program Request.Answer (Except Stop Unit)},
    h.Coherent (fun _ _ => True) → h.commits = [] →
    Program.Met (History.step crowded) (fun p => p = (sync watched definitions).run) h p h' →
      ∀ c ∈ h'.commits, Issues definitions h.clock c
  := by
  refine ⟨?_, ?_, ?_, ?_, ?_, ?_⟩
  · intro σ step s s' past hcomes
    apply stops_of_comes (covers_exceeded definitions) _ _ hcomes rfl
    · exact fun ref lifetime hlasts => ⟨ref, hlasts⟩
    · rintro e - ⟨⟩
  · intro now lifetime
    apply Validity.starting_eq_overflow
  · intro m refresh now
    obtain ⟨start, -, -, hdue⟩ := m.exists_dueFrom? refresh
    obtain ⟨reason?, hreason, -⟩ := hdue now
    exact ⟨reason?, hreason⟩
  · apply SignerRequest.stopsWithout_rotate
  · intro r leaf hrequest
    apply LeafStage.stopsWithout_rotate r hrequest
  · intro h h' p hcoherent hcommits hmet
    have hfirst : AllIssue definitions h.clock h := ⟨hcoherent, by simp, by simp [hcommits]⟩
    apply (AllIssue.passUpkeep.met hfirst (met_since hmet)).commits

/-- A definition that is accepted, with a lifetime of some 285 thousand years. The first pass over it
overflows. -/
theorem sync_overflows_in_lifetime_of_long :
  ∃ (d : Definition) (w w' : World) (past : List Exchange),
    Definition.validate [d] = .ok ()
      ∧ Program.Comes (Program.handled World.handle) (sync (NameSet.ofNames ["pki"]) [d]).run w past
        (.done (.error .overflow)) w'
      ∧ ∃ ref lifetime now, Lasts [d] ref lifetime ∧ (⟨.clock, now⟩ : Exchange) ∈ past
        ∧ Validity.starting now lifetime = .error .overflow
  := by
  let lifetime : Duration := ⟨9000000000000 * nanosPerSecond, by decide⟩
  let refresh : Duration := ⟨3600 * nanosPerSecond, by decide⟩
  let d : Definition := ⟨⟨"pki", "ca"⟩, ⟨lifetime, refresh⟩, none, none, none, none, none⟩
  let w : World := { store := Store.new ["pki"], clock := .ofSeconds 1790812800 }
  have hrun : ((sync (NameSet.ofNames ["pki"]) [d]).run.run World.handle w).1 = .error .overflow := by
    decide +kernel
  obtain ⟨past, hcomes, -⟩ := World.exists_minutes (sync (NameSet.ofNames ["pki"]) [d]).run w
  rw [hrun] at hcomes
  exact ⟨d, w, _, past, rfl, hcomes, (sync_overflows_in_lifetime _ [d]).1 hcomes⟩

end Manager

end CertKeeper
