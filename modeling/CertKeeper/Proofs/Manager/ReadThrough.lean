import CertKeeper.Proofs.Cluster.Pair
import CertKeeper.Proofs.Cluster.World
import CertKeeper.Proofs.Definition.Sample
import CertKeeper.Proofs.Manager.Uncached

/-!
# Reading through the caches

Where a cache shows nothing, a pass reads through it: it tries to create a secret and reads the one
that is there, and it reads a config map from the store. That comes to the same as a cache that shows
what the store has. So passes with caches that are held back come to the same results as passes with
caches that are caught up, and they leave the same objects, the same log of writes and the same events
(`Manager.sync_reads_through`). Only the record of the calls tells them apart.
-/

namespace CertKeeper

namespace World

/-- The world once its clock has been set. -/
def showing (w : World) (now : Instant) : World := { w with clock := now }

/-- No faults are planned, and the caches are held and show nothing of some objects. -/
structure Withheld (hidden : Kind → ResourceRef → Prop) (w : World) : Prop where
  faults : w.faults = []
  snapshot : w.snapshot = none
  held : w.store.held = true
  blind : ∀ k ref, hidden k ref → w.store.cached? k ref = none

/-- Two worlds differ in their caches: those of one world are caught up, and those of the other one are
withheld. -/
structure Mirrors (watched : NameSet) (hidden : Kind → ResourceRef → Prop) (w v : World) : Prop where
  calm : w.Calm watched
  withheld : v.Withheld hidden
  level : w.store.Level v.store
  clock : v.clock = w.clock
  keys : v.keys = w.keys
  silent : v.silent = w.silent
  events : v.events = w.events

variable {watched : NameSet} {hidden : Kind → ResourceRef → Prop} {w v : World} {k : Kind}

theorem Withheld.cached?_eq (hw : w.Withheld hidden) {ref : ResourceRef} (hhidden : hidden k ref) :
  w.cached? k ref = none
  := by
  rw [cached?, hw.snapshot]
  apply hw.blind k ref hhidden

/-- Caches that are held stay held, whatever is written. -/
theorem Withheld.moved (hw : w.Withheld hidden) {w' : World} (hfaults : w'.faults = [])
    (hsnapshot : w'.snapshot = none) (hmoves : w.store.Moves w'.store) :
  w'.Withheld hidden
  := by
  refine ⟨hfaults, hsnapshot, ?_, ?_⟩
  · rcases hmoves with hsame | ⟨k, verb, ns, o, hcommit⟩
    · rw [hsame, hw.held]
    · rw [hcommit, Store.held_commit, hw.held]
  · intro k' ref hhidden
    rcases hmoves with hsame | ⟨k, verb, ns, o, hcommit⟩
    · rw [hsame, hw.blind k' ref hhidden]
    · rw [hcommit, Store.cached?_commit_of_held _ _ _ _ hw.held, hw.blind k' ref hhidden]

theorem Calm.moved (hw : w.Calm watched) {w' : World} (hfaults : w'.faults = [])
    (hsnapshot : w'.snapshot = none) (hmoves : w.store.Moves w'.store) :
  w'.Calm watched
  := by
  rcases hmoves with hsame | ⟨k, verb, ns, o, hcommit⟩
  · refine ⟨hfaults, hsnapshot, ?_, ?_, ?_⟩
    · rw [hsame, hw.held]
    · rw [hsame, hw.watches]
    · rw [hsame]
      apply hw.caughtUp
  · apply hw.commit verb hfaults hsnapshot hcommit

namespace Mirrors

/-- A call is answered alike if the stores answer it alike. -/
theorem call (h : Mirrors watched hidden w v) (verb : CallVerb) (ref : ResourceRef)
    (sent : Option String) {action : Store → Except Error (Object k) × Store}
    (hanswer : (action v.store).1 = (action w.store).1)
    (hlevel : (action w.store).2.Level (action v.store).2)
    (hmoves : ∀ s : Store, s.Moves (action s).2) :
  (v.call verb ref sent action).1 = (w.call verb ref sent action).1
    ∧ Mirrors watched hidden (w.call verb ref sent action).2 (v.call verb ref sent action).2
  := by
  rw [call_eq_of_faults h.withheld.faults, call_eq_of_faults h.calm.faults]
  refine ⟨hanswer, ?_, ?_, hlevel, h.clock, h.keys, h.silent, h.events⟩
  · exact h.calm.moved rfl h.calm.snapshot (hmoves w.store)
  · exact h.withheld.moved rfl h.withheld.snapshot (hmoves v.store)

/-- A call that leaves the store leaves the worlds as they are, but for the record of the calls. -/
theorem asks (h : Mirrors watched hidden w v) (verb : CallVerb) (ref : ResourceRef)
    (sent : Option String) {action : Store → Except Error (Object k) × Store}
    (hstore : (action v.store).2 = v.store) :
  Mirrors watched hidden w (v.call verb ref sent action).2
  := by
  rw [call_eq_of_faults h.withheld.faults]
  refine ⟨h.calm, ?_, ?_, h.clock, h.keys, h.silent, h.events⟩
  · exact h.withheld.moved rfl h.withheld.snapshot (.inl hstore)
  · simp only [hstore]
    apply h.level

theorem get (h : Mirrors watched hidden w v) (k : Kind) (ref : ResourceRef) :
  (World.handle (.get k ref) v).1 = v.store.get k ref
    ∧ Mirrors watched hidden w (World.handle (.get k ref) v).2
  := by
  constructor
  · simp only [World.handle, call_eq_of_faults h.withheld.faults]
  · exact h.asks .get ref none rfl

/-- Nothing is created where something is. -/
theorem create_of_some (h : Mirrors watched hidden w v) {ns : String} {o live : Object k}
    (hlive : w.store.find? k ⟨ns, o.name⟩ = some live) :
  (World.handle (.create k ns o) v).1 = .error (ApiFailure.alreadyExists k o.name)
    ∧ Mirrors watched hidden w (World.handle (.create k ns o) v).2
  := by
  have hcreate : v.store.create ns o = (.error (ApiFailure.alreadyExists k o.name), v.store) := by
    rw [Store.create, h.level.find?, hlive]
  constructor
  · simp only [World.handle, call_eq_of_faults h.withheld.faults, hcreate]
  · apply h.asks .create ⟨ns, o.name⟩ o.version
    rw [hcreate]

/-- A request that does not go to a cache is answered alike. -/
theorem handle (h : Mirrors watched hidden w v) {r : Request} (hr : ¬ r.AsksCache) :
  (World.handle r v).1 = (World.handle r w).1
    ∧ Mirrors watched hidden (World.handle r w).2 (World.handle r v).2
  := by
  cases r with
  | cached k ref => exact absurd trivial hr
  | get k ref =>
    exact @call _ _ _ _ _ h .get ref none (fun s => (s.get k ref, s)) (h.level.get k ref) h.level
      (fun _ => .inl rfl)
  | create k ns o =>
    obtain ⟨hanswer, hlevel⟩ := h.level.create ns o
    exact h.call .create ⟨ns, o.name⟩ o.version hanswer hlevel (fun s => s.moves_create ns o)
  | update k ns o =>
    obtain ⟨hanswer, hlevel⟩ := h.level.update ns o
    exact h.call .update ⟨ns, o.name⟩ o.version hanswer hlevel (fun s => s.moves_update ns o)
  | clock => exact ⟨h.clock, h⟩
  | newKey =>
    refine ⟨congrArg KeyPair.generate h.keys, ?_, ?_, h.level, h.clock, ?_, h.silent, h.events⟩
    · exact h.calm.moved h.calm.faults h.calm.snapshot (.inl rfl)
    · exact h.withheld.moved h.withheld.faults h.withheld.snapshot (.inl rfl)
    · exact congrArg (· + 1) h.keys
  | publish event =>
    refine ⟨rfl, ?_⟩
    simp only [World.handle, h.calm.faults, h.withheld.faults, Fault.strike, h.silent]
    split
    · apply h
    · refine ⟨?_, ?_, h.level, h.clock, h.keys, rfl, ?_⟩
      · exact h.calm.moved rfl h.calm.snapshot (.inl rfl)
      · exact h.withheld.moved rfl h.withheld.snapshot (.inl rfl)
      · exact congrArg (· ++ [event]) h.events

/-- The clocks may be set together. -/
theorem showing (h : Mirrors watched hidden w v) (now : Instant) :
  Mirrors watched hidden (w.showing now) (v.showing now)
  := by
  refine ⟨?_, ?_, h.level, rfl, h.keys, h.silent, h.events⟩
  · exact h.calm.moved h.calm.faults h.calm.snapshot (.inl rfl)
  · exact h.withheld.moved h.withheld.faults h.withheld.snapshot (.inl rfl)

end Mirrors

end World

/-! ### Procedures -/

namespace Procedure

variable {α β : Type} {watched : NameSet} {hidden : Kind → ResourceRef → Prop} {w v : World} {k : Kind}

/-- In worlds that differ in their caches the procedure comes to the same. -/
abbrev ReadsThrough (watched : NameSet) (hidden : Kind → ResourceRef → Prop) (p : Procedure α)
    (w v : World) : Prop :=
  Pairs p p (fun a b w' v' => b = a ∧ World.Mirrors watched hidden w' v')
    (fun e e' w' v' => e' = e ∧ World.Mirrors watched hidden w' v') w v

namespace ReadsThrough

theorem bind {p : Procedure α} {f : α → Procedure β} (hp : ReadsThrough watched hidden p w v)
    (hf : ∀ {a w' v'}, World.Mirrors watched hidden w' v' → ReadsThrough watched hidden (f a) w' v') :
  ReadsThrough watched hidden (p >>= f) w v
  := by
  apply pairs_bind
  apply hp.mono
  · rintro a _ w' v' ⟨rfl, h'⟩
    apply hf h'
  · intro e e' w' v' hstop
    apply hstop

end ReadsThrough

theorem readsThrough_iff {p : Procedure α} :
  ReadsThrough watched hidden p w v ↔ (World.run p v).1 = (World.run p w).1
    ∧ World.Mirrors watched hidden (World.run p w).2 (World.run p v).2
  := by
  rw [ReadsThrough, pairs_iff]
  generalize World.run p w = first
  generalize World.run p v = second
  obtain ⟨e | a, w'⟩ := first <;> obtain ⟨e' | b, v'⟩ := second
  · rw [Except.error.injEq]
  · exact ⟨False.elim, fun h => nomatch h.1⟩
  · exact ⟨False.elim, fun h => nomatch h.1⟩
  · rw [Except.ok.injEq]

/-- A procedure that asks no cache comes to the same. -/
theorem Uncached.readsThrough {n : Nat} {p : Procedure α} (hp : p.Uncached n)
    (h : World.Mirrors watched hidden w v) :
  ReadsThrough watched hidden p w v
  := by
  have hsame : ∀ {n : Nat} {q : Program Request.Answer (Except Stop α)},
      q.AtMost (fun r => ¬ r.AsksCache) Request.MakesKey n →
      ∀ {w v : World}, World.Mirrors watched hidden w v →
      (q.run World.handle v).1 = (q.run World.handle w).1
        ∧ World.Mirrors watched hidden (q.run World.handle w).2 (q.run World.handle v).2 := by
    intro n q hq
    clear hp
    induction hq with
    | done => exact fun h => ⟨rfl, h⟩
    | free hr _ _ ih =>
      intro w v h
      obtain ⟨hanswer, h'⟩ := h.handle hr
      simp only [Program.run, hanswer]
      apply ih _ h'
    | counted hr _ ih =>
      intro w v h
      obtain ⟨hanswer, h'⟩ := h.handle hr
      simp only [Program.run, hanswer]
      apply ih _ h'
  exact readsThrough_iff.mpr (hsame hp h)

variable (h : World.Mirrors watched hidden w v)

include h

/-- What is not in a cache is read from the store, which has what the other cache shows. -/
theorem readsThrough_current {ref : ResourceRef} (hwatched : watched.contains ref.ns)
    (hhidden : hidden k ref) :
  ReadsThrough watched hidden (current k none ref) w v
  := by
  apply pairs_bind
  apply pairs_ask
  simp only [World.handle, h.calm.cached?_eq hwatched, h.withheld.cached?_eq hhidden]
  cases hfind : w.store.find? k ref with
  | none => apply (uncached_find ref).readsThrough h
  | some o =>
    obtain ⟨hanswer, h'⟩ := h.get k ref
    rw [Store.get, h.level.find?, hfind] at hanswer
    apply pairs_of_run (World.run_pure _ _) _ ⟨rfl, h'⟩
    rw [find, World.run_bind, World.run_ask]
    simp only [hanswer]
    rfl

end Procedure

/-! ### Passes -/

namespace Manager

open Procedure

variable {watched : NameSet} {hidden : Kind → ResourceRef → Prop} {w v : World}
variable (h : World.Mirrors watched hidden w v)

include h

/-- Where the cache does not show a secret, an attempt to create it finds out that it is there. -/
theorem readsThrough_ensureSecret {ref : ResourceRef} (hwatched : watched.contains ref.ns)
    (hhidden : hidden .secret ref) :
  ReadsThrough watched hidden (ensureSecret ref) w v
  := by
  apply pairs_bind
  apply pairs_ask
  simp only [World.handle, h.calm.cached?_eq hwatched, h.withheld.cached?_eq hhidden]
  cases hfind : w.store.find? .secret ref with
  | none => apply (uncached_createSecret ref).readsThrough h
  | some s =>
    let empty : Secret := ⟨{ name := ref.name }, {}⟩
    obtain ⟨hexists, h'⟩ := h.create_of_some (o := empty) hfind
    obtain ⟨hanswer, h''⟩ := h'.get .secret ref
    rw [Store.get, h'.level.find?, hfind] at hanswer
    apply pairs_of_run (World.run_pure _ _) _ ⟨rfl, h''⟩
    rw [World.run_bind, World.run_ask, hexists]
    show World.run (Procedure.get .secret ref) _ = _
    rw [Procedure.get, World.run_bind, World.run_ask, hanswer]
    rfl

theorem readsThrough_prepareSecret {ref : ResourceRef} (hhidden : hidden .secret ref)
    (policy : Policy) :
  ReadsThrough watched hidden (prepareSecret watched ref policy) w v
  := by
  apply pairs_bind
  apply pairs_ofResult
  · intro _ hwatched
    apply (readsThrough_ensureSecret h (checkWatched_eq_ok.mp hwatched) hhidden).bind
    intro secret w' v' h'
    apply (uncached_ensurePolicy secret ref policy).readsThrough h'
  · intro e _
    exact ⟨rfl, h⟩

theorem readsThrough_signerStage {d : Definition} (hhidden : hidden .secret d.signer) :
  ReadsThrough watched hidden (signerStage watched d) w v
  := by
  apply (readsThrough_prepareSecret h hhidden d.signerPolicy).bind
  intro copy w' v' h'
  apply (SignerRequest.uncached_ensure rfl).readsThrough h'

theorem readsThrough_bundleStage {bundle : ResourceRef} (hhidden : hidden .configMap bundle)
    (ca : Authority) :
  ReadsThrough watched hidden (bundleStage watched bundle ca) w v
  := by
  apply pairs_bind
  apply pairs_ofResult
  · intro _ hwatched
    apply (readsThrough_current h (checkWatched_eq_ok.mp hwatched) hhidden).bind
    intro copy w' v' h'
    apply (Bundle.uncached_attempt bundle ca copy).readsThrough h'
  · intro e _
    exact ⟨rfl, h⟩

theorem readsThrough_leafStage {leaf : Leaf} (hhidden : hidden .secret leaf.secret) (ca : Authority)
    (trusted : List TrustedCertificate) :
  ReadsThrough watched hidden (leafStage watched leaf ca trusted) w v
  := by
  apply (readsThrough_prepareSecret h hhidden leaf.policy).bind
  intro copy w' v' h'
  apply (LeafStage.uncached_ensure rfl ca trusted).readsThrough h'

theorem readsThrough_planStages {p : Plan} (hstages : p.1.stages = .ok p.2)
    (hhidden : ∀ k ref, p.1.Names k ref → hidden k ref) :
  ReadsThrough watched hidden (planStages watched p) w v
  := by
  obtain ⟨d, kept⟩ := p
  have hnames := Definition.of_stages hstages
  apply (readsThrough_signerStage h (hhidden _ _ .signer)).bind
  intro ca w' v' h'
  cases kept with
  | signer => apply pairs_pure ⟨rfl, h'⟩
  | signerAndBundle bundle =>
    apply (readsThrough_bundleStage h' (hhidden _ _ (.bundle hnames.1)) ca).bind
    intro trusted w' v' h'
    apply pairs_pure ⟨rfl, h'⟩
  | full bundle leaf =>
    apply (readsThrough_bundleStage h' (hhidden _ _ (.bundle hnames.1)) ca).bind
    intro trusted w' v' h'
    apply readsThrough_leafStage h' (hhidden _ _ (.of_stages hstages))

/-- A pass comes to the same in worlds that differ in their caches only. -/
theorem readsThrough_sync {definitions : List Definition}
    (hhidden : ∀ k ref, Definition.Named definitions k ref → hidden k ref) :
  ReadsThrough watched hidden (sync watched definitions) w v
  := by
  rw [sync_eq]
  apply pairs_bind
  apply pairs_ofResult
  · intro plans hplans
    apply (pairs_forM _ h).mono
    · intro _ _ w' v' h'
      exact ⟨rfl, h'⟩
    · intro e e' w' v' hstop
      apply hstop
    · intro p hp w v h
      obtain ⟨hd, hstages, -⟩ := mem_of_preflight hplans hp
      apply (readsThrough_planStages h hstages (fun k ref hnames => hhidden k ref ⟨p.1, hd, hnames⟩)).mono
      · intro _ _ w' v' hok
        apply hok.2
      · intro e e' w' v' hstop
        apply hstop
  · intro e _
    exact ⟨rfl, h⟩

omit h

/-- What passes come to that run one after the other, each at a time of its own, and the worlds that
they leave. -/
def syncs (watched : NameSet) : List (Instant × List Definition) → World →
    List (Except Stop Unit × World)
  | [], _ => []
  | (now, definitions) :: rest, w =>
    let pass := World.run (sync watched definitions) (w.showing now)
    pass :: syncs watched rest pass.2

/-- Two passes came to the same, and their worlds have the same objects, the same log of writes and the
same events. -/
structure SameOutcome (pass pass' : Except Stop Unit × World) : Prop where
  result : pass'.1 = pass.1
  objects : ∀ k ref, pass'.2.store.find? k ref = pass.2.store.find? k ref
  writes : pass'.2.store.writes = pass.2.store.writes
  events : pass'.2.events = pass.2.events

/-- Passes run in a world whose caches are caught up and deliver every write at once, and in one whose
caches are held from the beginning and show none of the objects that the definitions name. The worlds
have the same objects and will give the same versions and keys. Pass by pass they come to the same
result or error, the same objects, the same log of writes and the same events. -/
theorem sync_reads_through {passes : List (Instant × List Definition)}
    (hhidden : ∀ pass ∈ passes, ∀ k ref, Definition.Named pass.2 k ref → hidden k ref)
    (h : World.Mirrors watched hidden w v) :
  List.Forall₂ SameOutcome (syncs watched passes w) (syncs watched passes v)
  := by
  induction passes generalizing w v with
  | nil => exact .nil
  | cons pass rest ih =>
    obtain ⟨now, definitions⟩ := pass
    obtain ⟨hresult, h'⟩ :=
      readsThrough_iff.mp (readsThrough_sync (h.showing now) (hhidden _ List.mem_cons_self))
    apply List.Forall₂.cons
    · exact ⟨hresult, h'.level.find?, h'.level.writes, h'.events⟩
    · apply ih _ h'
      intro pass hpass
      apply hhidden pass (List.mem_cons_of_mem _ hpass)

/-- Two passes over the sample definitions, with caches that show nothing at all. -/
theorem sync_reads_through_of_sample :
  ∃ (passes : List (Instant × List Definition)) (w v : World) (hidden : Kind → ResourceRef → Prop),
    passes.length = 2
      ∧ (∀ pass ∈ passes, ∀ k ref, Definition.Named pass.2 k ref → hidden k ref)
      ∧ World.Mirrors (NameSet.ofNames ["pki"]) hidden w v
      ∧ List.Forall₂ SameOutcome (syncs (NameSet.ofNames ["pki"]) passes w)
        (syncs (NameSet.ofNames ["pki"]) passes v)
  := by
  let passes : List (Instant × List Definition) :=
    [(.ofSeconds 0, Definition.sample "pki" "api"), (.ofSeconds 950400, Definition.sample "pki" "api")]
  let w : World := { store := Store.new ["pki"], clock := .ofSeconds 0 }
  let v : World := { store := (Store.new ["pki"]).hold, clock := .ofSeconds 0 }
  have hlevel : w.store.Level v.store := ⟨fun k _ => by cases k <;> rfl, rfl, rfl⟩
  have hwithheld : v.Withheld (fun _ _ => True) := ⟨rfl, rfl, rfl, fun k _ _ => by cases k <;> rfl⟩
  have hmirrors : World.Mirrors (NameSet.ofNames ["pki"]) (fun _ _ => True) w v :=
    ⟨World.calm_new ["pki"] (.ofSeconds 0), hwithheld, hlevel, rfl, rfl, rfl, rfl⟩
  exact ⟨passes, w, v, _, rfl, fun _ _ _ _ _ => trivial, hmirrors,
    sync_reads_through (fun _ _ _ _ _ => trivial) hmirrors⟩

end Manager

end CertKeeper
