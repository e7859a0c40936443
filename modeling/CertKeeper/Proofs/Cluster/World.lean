import CertKeeper.Cluster.World
import CertKeeper.Proofs.Cluster.Object
import CertKeeper.Proofs.Cluster.Procedure

/-!
# Requests in a calm world

In a world that is `Calm`, no call fails and the caches show what the store has. There every
request has one answer, so `Procedure.Leads` says what a procedure comes to, and a procedure may
be said to come to several things at once (`Procedure.Leads.and`). The rules of this module give
the answer to each request. Those that only read leave a calm world as it is, but for the record
of the calls.
-/

namespace CertKeeper

namespace World

variable {k : Kind}

/-- No faults are planned, and the caches of the watched namespaces are those of the store, follow
its writes and are up to date. -/
structure Calm (watched : NameSet) (w : World) : Prop where
  faults : w.faults = []
  snapshot : w.snapshot = none
  held : w.store.held = false
  watches : w.store.watched = watched
  caughtUp : ∀ k ref, watched.contains ref.ns → w.store.cached? k ref = w.store.find? k ref

/-- An empty store makes for a calm world. -/
theorem calm_new (namespaces : List String) (now : Instant) :
  Calm (NameSet.ofNames namespaces) { store := Store.new namespaces, clock := now }
  := by
  refine ⟨rfl, rfl, rfl, rfl, ?_⟩
  intro k ref _
  cases k <;> rfl

/-- The world is another one at most in its records. -/
structure Rests (watched : NameSet) (w w' : World) : Prop where
  calm : w'.Calm watched
  store : w'.store = w.store
  clock : w'.clock = w.clock

/-- In a world an object was stored at a place. -/
structure Stored (watched : NameSet) (ref : ResourceRef) (o : Object k) (w w' : World) : Prop where
  calm : w'.Calm watched
  clock : w'.clock = w.clock
  find?_self : w'.store.find? k ref = some (w.store.stamped ref.ns o)
  find?_of_ne : ∀ {k' ref'}, ¬ (k' = k ∧ ref' = ref) →
    w'.store.find? k' ref' = w.store.find? k' ref'

/-- In a world an object was stored at a place, by a call that the store has logged. -/
structure Wrote (watched : NameSet) (verb : WriteVerb) (ref : ResourceRef) (o : Object k)
    (w w' : World) : Prop extends Stored watched ref o w w' where
  writes : w'.store.writes = w.store.writes ++ [⟨verb, k, ref⟩]

variable {watched : NameSet} {w w' : World} {ref : ResourceRef}

theorem Calm.rests (hw : w.Calm watched) (hfaults : w'.faults = []) (hsnapshot : w'.snapshot = none)
    (hstore : w'.store = w.store) (hclock : w'.clock = w.clock) :
  Rests watched w w'
  := by
  refine ⟨⟨hfaults, hsnapshot, ?_, ?_, ?_⟩, hstore, hclock⟩
  · rw [hstore]
    apply hw.held
  · rw [hstore]
    apply hw.watches
  · rw [hstore]
    apply hw.caughtUp

theorem Calm.cached?_eq (hw : w.Calm watched) (hwatched : watched.contains ref.ns) :
  w.cached? k ref = w.store.find? k ref
  := by
  rw [cached?, hw.snapshot]
  apply hw.caughtUp k ref hwatched

/-- A call is carried out if no faults are planned. -/
theorem call_eq_of_faults (hfaults : w.faults = []) (verb : CallVerb) (ref : ResourceRef)
    (sent : Option String) (action : Store → Except Error (Object k) × Store) :
  w.call verb ref sent action = ((action w.store).1,
    { w with
      store := (action w.store).2
      faults := []
      calls := w.calls ++ [⟨verb, k, ref, sent, (action w.store).1.map Object.version⟩] })
  := by
  simp only [call, hfaults]
  rfl

theorem Calm.call_eq (hw : w.Calm watched) (verb : CallVerb) (ref : ResourceRef)
    (sent : Option String) (action : Store → Except Error (Object k) × Store) :
  w.call verb ref sent action = ((action w.store).1,
    { w with
      store := (action w.store).2
      faults := []
      calls := w.calls ++ [⟨verb, k, ref, sent, (action w.store).1.map Object.version⟩] })
  := call_eq_of_faults hw.faults verb ref sent action

/-- The caches follow a write. -/
theorem Calm.commit {ns : String} {o : Object k} (hw : w.Calm watched) (verb : WriteVerb)
    (hfaults : w'.faults = []) (hsnapshot : w'.snapshot = none)
    (hstore : w'.store = (w.store.commit verb ns o).2) :
  w'.Calm watched
  := by
  have hheld := hw.held
  refine ⟨hfaults, hsnapshot, ?_, ?_, ?_⟩
  · rw [hstore, Store.held_commit, hheld]
  · rw [hstore, Store.watched_commit, hw.watches]
  · intro k' ref' hwatched
    rw [hstore]
    by_cases hsame : k' = k ∧ ref' = ⟨ns, o.name⟩
    · obtain ⟨rfl, rfl⟩ := hsame
      have hns : w.store.watched.contains ns := hw.watches ▸ hwatched
      rw [Store.cached?_commit_self _ _ _ _ hheld hns, Store.find?_commit_self]
    · rw [Store.cached?_commit_of_ne _ _ _ _ hheld hsame, Store.find?_commit_of_ne _ _ _ _ hsame]
      apply hw.caughtUp k' ref' hwatched

/-- A write in a calm world. -/
theorem Calm.wrote {o : Object k} (hw : w.Calm watched) (hname : o.name = ref.name)
    (verb : WriteVerb) (hfaults : w'.faults = []) (hsnapshot : w'.snapshot = none)
    (hclock : w'.clock = w.clock) (hstore : w'.store = (w.store.commit verb ref.ns o).2) :
  Wrote watched verb ref o w w'
  := by
  obtain ⟨ns, name⟩ := ref
  obtain rfl : o.name = name := hname
  refine ⟨⟨hw.commit verb hfaults hsnapshot hstore, hclock, ?_, ?_⟩, ?_⟩
  · rw [hstore, Store.find?_commit_self]
  · intro k' ref' hne
    rw [hstore, Store.find?_commit_of_ne _ _ _ _ hne]
  · rw [hstore]
    rfl

/-- What is written after some reading is written in the world before. -/
theorem Wrote.of_rests {verb : WriteVerb} {w'' : World} {o : Object k} (h : w.Rests watched w')
    (h' : w'.Wrote watched verb ref o w'') :
  w.Wrote watched verb ref o w''
  := by
  refine ⟨⟨h'.calm, h'.clock.trans h.clock, ?_, ?_⟩, ?_⟩
  · rw [h'.find?_self, h.store]
  · intro k' ref' hne
    rw [h'.find?_of_ne hne, h.store]
  · rw [h'.writes, h.store]

/-- Some reading may follow a write. -/
theorem Wrote.rests {verb : WriteVerb} {w'' : World} {o : Object k} (h : w.Wrote watched verb ref o w')
    (h' : w'.Rests watched w'') :
  w.Wrote watched verb ref o w''
  := by
  refine ⟨⟨h'.calm, h'.clock.trans h.clock, ?_, ?_⟩, ?_⟩
  · rw [h'.store, h.find?_self]
  · intro k' ref' hne
    rw [h'.store, h.find?_of_ne hne]
  · rw [h'.store, h.writes]

theorem Stored.isAt {o : Object k} (_ : Stored watched ref o w w') (hname : o.name = ref.name) :
  (w.store.stamped ref.ns o).IsAt ref
  := ⟨rfl, hname⟩

end World

namespace Procedure

variable {α : Type} {k : Kind} {watched : NameSet} {w : World} {ref : ResourceRef}
variable {stop : Stop → World → Prop}

/-- Carried out in a world, the procedure ends with `ok` or stops with `stop`. -/
abbrev Leads (p : Procedure α) (ok : α → World → Prop) (stop : Stop → World → Prop) (w : World) :
    Prop :=
  p.Safe (Program.handled World.handle) (fun _ => True) ok stop w

/-- What a procedure leads to is what a run of it ends with. -/
theorem leads_iff {p : Procedure α} {ok : α → World → Prop} :
  p.Leads ok stop w ↔ Ends ok stop (World.run p w).1 (World.run p w).2
  := by
  constructor
  · intro h
    apply (safe_iff.mp h).run
  · intro h
    apply safe_iff.mpr
    apply Program.safe_of_run h

/-- A procedure leads to what a run of it comes to. -/
theorem leads_run (p : Procedure α) :
  p.Leads (fun a w' => World.run p w = (.ok a, w')) (fun e w' => World.run p w = (.error e, w')) w
  := by
  rw [leads_iff]
  cases hrun : World.run p w with
  | mk result w' => cases result <;> rfl

/-- A procedure that went through has come to what it leads to. -/
theorem Leads.of_run {p : Procedure α} {ok : α → World → Prop} {a : α} {w' : World}
    (h : p.Leads ok stop w) (hrun : World.run p w = (.ok a, w')) :
  ok a w'
  := by
  have hends := leads_iff.mp h
  rw [hrun] at hends
  apply hends

/-- A procedure leads to both of two things that it leads to. -/
theorem Leads.and {p : Procedure α} {ok ok' : α → World → Prop} {stop' : Stop → World → Prop}
    (h : p.Leads ok stop w) (h' : p.Leads ok' stop' w) :
  p.Leads (fun a w' => ok a w' ∧ ok' a w') stop w
  := by
  rw [leads_iff] at *
  revert h h'
  cases (World.run p w).1 with
  | ok a => exact fun h h' => ⟨h, h'⟩
  | error e => exact fun h _ => h

/-- A procedure leads to all of the things that it would lead to under conditions, as far as these
are met. -/
theorem Leads.and_all {ι : Type} {p : Procedure α} {ok : α → World → Prop} {given : ι → Prop}
    {ok' : ι → α → World → Prop} (h : p.Leads ok stop w)
    (h' : ∀ i, given i → p.Leads (ok' i) stop w) :
  p.Leads (fun a w' => ok a w' ∧ ∀ i, given i → ok' i a w') stop w
  := by
  simp only [leads_iff] at *
  revert h h'
  cases (World.run p w).1 with
  | ok a => exact fun h h' => ⟨h, h'⟩
  | error e => exact fun h _ => h

theorem Leads.mono {p : Procedure α} {ok ok' : α → World → Prop} {stop' : Stop → World → Prop}
    (h : p.Leads ok stop w) (hok : ∀ a w', ok a w' → ok' a w')
    (hstop : ∀ e w', stop e w' → stop' e w') :
  p.Leads ok' stop' w
  := by
  rw [leads_iff] at *
  revert h
  cases (World.run p w).1 with
  | ok a => apply hok
  | error e => apply hstop

/-- A run of a procedure that leads to no stop goes through. -/
theorem Leads.exists_run {p : Procedure α} {ok : α → World → Prop}
    (h : p.Leads ok (fun _ _ => False) w) :
  ∃ a w', World.run p w = (.ok a, w') ∧ ok a w'
  := by
  have hends := leads_iff.mp h
  cases hresult : (World.run p w).1 with
  | ok a =>
    rw [hresult] at hends
    exact ⟨a, _, Prod.ext hresult rfl, hends⟩
  | error e =>
    rw [hresult] at hends
    cases hends

/-- Whatever the first part of a sequence comes to, the second part runs from there. -/
theorem leads_bind {β : Type} {p : Procedure α} {f : α → Procedure β} {ok : β → World → Prop}
    (h : ∀ a w', (f a).Leads ok (fun _ _ => True) w') :
  (p >>= f).Leads ok (fun _ _ => True) w
  := by
  apply safe_bind
  apply (leads_run p).mono
  · intro a w' _
    apply h
  · intro _ _ _
    trivial

/-- A cache shows what the store has. -/
theorem leads_cached {ok : Option (Object k) → World → Prop} (hw : w.Calm watched)
    (hwatched : watched.contains ref.ns) (h : ok (w.store.find? k ref) w) :
  (cached k ref).Leads ok stop w
  := by
  apply safe_ask
  rintro answer _ hs
  cases hs
  rw [← hw.cached?_eq hwatched] at h
  exact ⟨trivial, h⟩

theorem leads_clock {ok : Instant → World → Prop} (h : ok w.clock w) :
  clock.Leads ok stop w
  := by
  apply safe_ask
  rintro answer _ hs
  cases hs
  exact ⟨trivial, h⟩

theorem leads_newKey {ok : KeyPair → World → Prop} (hw : w.Calm watched)
    (h : ∀ {w'}, w.Rests watched w' → ok (KeyPair.generate w.keys) w') :
  newKey.Leads ok stop w
  := by
  apply safe_ask
  rintro answer _ hs
  cases hs
  exact ⟨trivial, h (hw.rests hw.faults hw.snapshot rfl rfl)⟩

theorem leads_publish {o : Object k} {reason action note : String} {ok : Unit → World → Prop}
    (hw : w.Calm watched) (h : ∀ {w'}, w.Rests watched w' → ok () w') :
  (publish o reason action note).Leads ok stop w
  := by
  apply safe_ask
  rintro answer w' hs
  simp only [Program.handled, World.handle, hw.faults, Fault.strike] at hs
  obtain ⟨rfl, rfl⟩ := Prod.mk.inj hs
  constructor
  · trivial
  · apply h
    split
    · exact hw.rests hw.faults hw.snapshot rfl rfl
    · exact hw.rests rfl hw.snapshot rfl rfl

/-- A call that reads gives what the store has. -/
theorem leads_askGet {ok : Except Error (Object k) → World → Prop} (hw : w.Calm watched)
    (h : ∀ {w'}, w.Rests watched w' → ok (w.store.get k ref) w') :
  (ask (.get k ref)).Leads ok stop w
  := by
  apply safe_ask
  rintro answer w' hs
  simp only [Program.handled, World.handle, hw.call_eq] at hs
  obtain ⟨rfl, rfl⟩ := Prod.mk.inj hs
  exact ⟨trivial, h (hw.rests rfl hw.snapshot rfl rfl)⟩

theorem leads_find {ok : Option (Object k) → World → Prop} (hw : w.Calm watched)
    (h : ∀ {w'}, w.Rests watched w' → ok (w.store.find? k ref) w') :
  (find k ref).Leads ok stop w
  := by
  apply safe_bind
  apply leads_askGet hw
  intro w' hrests
  unfold Store.get
  cases hfind : w.store.find? k ref with
  | some o =>
    apply safe_pure
    rw [← hfind]
    apply h hrests
  | none =>
    have hnotFound : (ApiFailure.notFound k ref.name).isNotFound = true := rfl
    simp only [hnotFound, if_true]
    apply safe_pure
    rw [← hfind]
    apply h hrests

/-- An object is created where there is none. -/
theorem leads_askCreate {o : Object k} {ok : Except Error (Object k) → World → Prop}
    (hw : w.Calm watched) (hwatched : watched.contains ref.ns) (hname : o.name = ref.name)
    (hnone : w.store.find? k ref = none)
    (h : ∀ {w'}, w.Wrote watched .create ref o w' → ok (.ok (w.store.stamped ref.ns o)) w') :
  (ask (.create k ref.ns o)).Leads ok stop w
  := by
  obtain ⟨ns, name⟩ := ref
  obtain rfl : o.name = name := hname
  apply safe_ask
  rintro answer w' hs
  simp only [Program.handled, World.handle, hw.call_eq, Store.create, hnone] at hs
  obtain ⟨rfl, rfl⟩ := Prod.mk.inj hs
  exact ⟨trivial, h (hw.wrote rfl .create rfl hw.snapshot rfl rfl)⟩

/-- An object is not created where there is one. -/
theorem leads_askCreate_of_some {o live : Object k} {ok : Except Error (Object k) → World → Prop}
    (hw : w.Calm watched) (hname : o.name = ref.name) (hlive : w.store.find? k ref = some live)
    (h : ∀ {w'}, w.Rests watched w' → ok (.error (ApiFailure.alreadyExists k ref.name)) w') :
  (ask (.create k ref.ns o)).Leads ok stop w
  := by
  obtain ⟨ns, name⟩ := ref
  obtain rfl : o.name = name := hname
  apply safe_ask
  rintro answer w' hs
  simp only [Program.handled, World.handle, hw.call_eq, Store.create, hlive] at hs
  obtain ⟨rfl, rfl⟩ := Prod.mk.inj hs
  exact ⟨trivial, h (hw.rests rfl hw.snapshot rfl rfl)⟩

theorem leads_create {o : Object k} {ok : Object k → World → Prop} (hw : w.Calm watched)
    (hwatched : watched.contains ref.ns) (hname : o.name = ref.name)
    (hnone : w.store.find? k ref = none)
    (h : ∀ {w'}, w.Wrote watched .create ref o w' → ok (w.store.stamped ref.ns o) w') :
  (create k ref.ns o).Leads ok stop w
  := by
  apply safe_bind
  apply leads_askCreate hw hwatched hname hnone
  intro w' hstored
  apply safe_pure
  apply h hstored

/-- An object is stored over the live one whose version is sent along. -/
theorem leads_update {o live : Object k} {ok : Object k → World → Prop} (hw : w.Calm watched)
    (hwatched : watched.contains ref.ns) (hname : o.name = ref.name)
    (hlive : w.store.find? k ref = some live) (hversion : live.version = o.version)
    (h : ∀ {w'}, w.Wrote watched .update ref o w' → w'.keys = w.keys →
      ok (w.store.stamped ref.ns o) w') :
  (update k ref.ns o).Leads ok stop w
  := by
  obtain ⟨ns, name⟩ := ref
  obtain rfl : o.name = name := hname
  apply safe_bind
  apply safe_ask
  rintro answer w' hs
  simp only [Program.handled, World.handle, hw.call_eq, Store.update, hlive, if_pos hversion] at hs
  obtain ⟨rfl, rfl⟩ := Prod.mk.inj hs
  constructor
  · trivial
  · apply safe_pure
    exact h (hw.wrote rfl .update rfl hw.snapshot rfl rfl) rfl

end Procedure

end CertKeeper
