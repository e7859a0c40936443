import CertKeeper.Cluster.Request
import CertKeeper.Proofs.Cluster.Store
import CertKeeper.Proofs.Program.Safety
import CertKeeper.Proofs.Time.Instant

/-!
# Clusters with a history

A `History` is a store with every object that has been stored in it, and the writes of one
procedure. It is the least that a procedure may rely on: `History.Answers` lets a cache
show nothing or any earlier version of an object that it follows, lets any call on the store
fail without an effect, and `History.Drift` lets time pass and other writers create and update
objects between the requests.

Versions make the writes safe. In a history that is `Coherent` an object is known by its
place and its version, so a copy with the version of the live object is the live object.
-/

namespace CertKeeper

/-- A write of an object: the version that it replaced, which a creation has none of, and
the version that it stored. -/
structure Commit where
  kind : Kind
  replaced : Option (Object kind)
  stored : Object kind

/-- A cluster with all versions of its objects and the writes of one procedure. -/
structure History where
  store : Store
  clock : Instant
  past : List (Sigma Object)
  commits : List Commit := []

/-- What goes on outside of a procedure: the objects that other writers may create and update,
the objects that the caches follow, and the times that the clock may show. -/
structure Outside where
  writes : Kind → ResourceRef → Prop
  follows : Kind → ResourceRef → Prop
  shows : Instant → Prop

namespace History

/-- The history after a write of another writer. -/
def recorded {k : Kind} (h : History) (s : Store) (stored : Object k) : History :=
  { h with store := s, past := ⟨k, stored⟩ :: h.past }

/-- The history after a write of the procedure. -/
def committed {k : Kind} (h : History) (s : Store) (ref : ResourceRef) (stored : Object k) : History :=
  { h.recorded s stored with commits := h.commits ++ [⟨k, h.store.find? k ref, stored⟩] }

/-- What may happen between two requests: time passes, and other writers create and update
objects. -/
inductive Drift (outside : Outside) (h : History) : History → Prop where
  | none : Drift outside h h
  | tick {h' : History} {now : Instant} : Drift outside h h' → ¬ now.before h'.clock →
      outside.shows now → Drift outside h { h' with clock := now }
  | create {k : Kind} {h' : History} {s : Store} {ns : String} {o stored : Object k} :
      Drift outside h h' → outside.writes k ⟨ns, o.name⟩ →
      h'.store.create ns o = (.ok stored, s) → Drift outside h (h'.recorded s stored)
  | update {k : Kind} {h' : History} {s : Store} {ns : String} {o stored : Object k} :
      Drift outside h h' → outside.writes k ⟨ns, o.name⟩ →
      h'.store.update ns o = (.ok stored, s) → Drift outside h (h'.recorded s stored)

/-- How a request may be answered, and the history after that. -/
def Answers (outside : Outside) (h : History) : (r : Request) → r.Answer → History → Prop
  | .cached k ref, answer, h' =>
    h' = h ∧ (outside.follows k ref → ∀ o ∈ answer, (⟨k, o⟩ : Sigma Object) ∈ h.past ∧ o.IsAt ref)
  | .get k ref, answer, h' => h' = h ∧ ((∃ e, answer = .error e) ∨ answer = h.store.get k ref)
  | .create _ ns o, answer, h' =>
    (∃ e, answer = .error e ∧ h' = h) ∨
      ∃ stored s, h.store.create ns o = (.ok stored, s) ∧ answer = .ok stored
        ∧ h' = h.committed s ⟨ns, o.name⟩ stored
  | .update _ ns o, answer, h' =>
    (∃ e, answer = .error e ∧ h' = h) ∨
      ∃ stored s, h.store.update ns o = (.ok stored, s) ∧ answer = .ok stored
        ∧ h' = h.committed s ⟨ns, o.name⟩ stored
  | .clock, answer, h' => answer = h.clock ∧ h' = h
  | .newKey, answer, h' => (∃ seed, answer = KeyPair.generate seed) ∧ h' = h
  | .publish _, _, h' => h' = h

/-- The surroundings of a procedure in a cluster with a history. -/
def step (outside : Outside) : Surroundings Request.Answer History :=
  fun h r answer h'' => ∃ h', Drift outside h h' ∧ h'.Answers outside r answer h''

/-! ### Later histories -/

variable {k k' : Kind}

@[simp]
theorem store_recorded (h : History) (s : Store) (stored : Object k) :
  (h.recorded s stored).store = s
  := rfl

@[simp]
theorem clock_recorded (h : History) (s : Store) (stored : Object k) :
  (h.recorded s stored).clock = h.clock
  := rfl

@[simp]
theorem past_recorded (h : History) (s : Store) (stored : Object k) :
  (h.recorded s stored).past = ⟨k, stored⟩ :: h.past
  := rfl

@[simp]
theorem store_committed (h : History) (s : Store) (ref : ResourceRef) (stored : Object k) :
  (h.committed s ref stored).store = s
  := rfl

@[simp]
theorem clock_committed (h : History) (s : Store) (ref : ResourceRef) (stored : Object k) :
  (h.committed s ref stored).clock = h.clock
  := rfl

@[simp]
theorem past_committed (h : History) (s : Store) (ref : ResourceRef) (stored : Object k) :
  (h.committed s ref stored).past = ⟨k, stored⟩ :: h.past
  := rfl

/-- All versions are still there, and the clock has not gone back. -/
structure Later (h h' : History) : Prop where
  past : ∀ v ∈ h.past, v ∈ h'.past
  clock : ¬ h'.clock.before h.clock

theorem Later.refl (h : History) :
  h.Later h
  := ⟨fun _ hv => hv, by simp⟩

theorem Later.trans {h₁ h₂ h₃ : History} (h : h₁.Later h₂) (h' : h₂.Later h₃) :
  h₁.Later h₃
  := ⟨fun v hv => h'.past v (h.past v hv), Instant.not_before_trans h'.clock h.clock⟩

theorem later_recorded (h : History) (s : Store) (stored : Object k) :
  h.Later (h.recorded s stored)
  := ⟨fun _ hv => List.mem_cons_of_mem _ hv, by simp⟩

theorem later_committed (h : History) (s : Store) (ref : ResourceRef) (stored : Object k) :
  h.Later (h.committed s ref stored)
  := ⟨fun _ hv => List.mem_cons_of_mem _ hv, by simp⟩

theorem Drift.later {outside : Outside} {h h' : History}
    (hd : Drift outside h h') :
  h.Later h'
  := by
  induction hd with
  | none => apply Later.refl
  | tick _ hclock _ ih => exact ⟨ih.past, Instant.not_before_trans hclock ih.clock⟩
  | create _ _ _ ih => apply ih.trans (later_recorded _ _ _)
  | update _ _ _ ih => apply ih.trans (later_recorded _ _ _)

theorem Drift.trans {outside : Outside} {h h' h'' : History}
    (hd : Drift outside h h') (hd' : Drift outside h' h'') :
  Drift outside h h''
  := by
  induction hd' with
  | none => apply hd
  | tick _ hclock hcivil ih => apply Drift.tick ih hclock hcivil
  | create _ houtside hcreate ih => apply Drift.create ih houtside hcreate
  | update _ houtside hupdate ih => apply Drift.update ih houtside hupdate

/-- What may happen in surroundings may happen in others that allow more. -/
theorem Drift.mono {outside outside' : Outside} {h h' : History} (hd : Drift outside h h')
    (hwrites : ∀ {k ref}, outside.writes k ref → outside'.writes k ref)
    (hshows : ∀ {now}, outside.shows now → outside'.shows now) :
  Drift outside' h h'
  := by
  induction hd with
  | none => apply Drift.none
  | tick _ hclock hnow ih => apply Drift.tick ih hclock (hshows hnow)
  | create _ houtside hcreate ih => apply Drift.create ih (hwrites houtside) hcreate
  | update _ houtside hupdate ih => apply Drift.update ih (hwrites houtside) hupdate

theorem Drift.commits {outside : Outside} {h h' : History}
    (hd : Drift outside h h') :
  h'.commits = h.commits
  := by
  induction hd with
  | none => rfl
  | tick _ _ _ ih => apply ih
  | create _ _ _ ih => apply ih
  | update _ _ _ ih => apply ih

/-- What others store is added in front of what was stored before. -/
theorem Drift.past_suffix {outside : Outside} {h h' : History} (hd : Drift outside h h') :
  h.past <:+ h'.past
  := by
  induction hd with
  | none => apply List.suffix_rfl
  | tick _ _ _ ih => apply ih
  | create _ _ _ ih => apply ih.trans (List.suffix_cons _ _)
  | update _ _ _ ih => apply ih.trans (List.suffix_cons _ _)

/-- Time that passes shows a time that the clock may show. -/
theorem Drift.shows {outside : Outside} {h h' : History} (hd : Drift outside h h')
    (hshows : outside.shows h.clock) :
  outside.shows h'.clock
  := by
  induction hd with
  | none => apply hshows
  | tick _ _ hnow _ => apply hnow
  | create _ _ _ ih => apply ih
  | update _ _ _ ih => apply ih

/-- An object that other writers do not write stays as it is. -/
theorem Drift.find?_eq {outside : Outside} {h h' : History} (hd : Drift outside h h')
    {ref : ResourceRef} (hown : ¬ outside.writes k ref) :
  h'.store.find? k ref = h.store.find? k ref
  := by
  have hne : ∀ {k' ns} {o : Object k'}, outside.writes k' ⟨ns, o.name⟩ →
      ¬ (k = k' ∧ ref = ⟨ns, o.name⟩) := by
    rintro k' ns o hwrites ⟨rfl, rfl⟩
    exact hown hwrites
  induction hd with
  | none => rfl
  | tick _ _ _ ih => apply ih
  | create _ hwrites hcreate ih =>
    obtain ⟨-, -, rfl⟩ := Store.create_eq_ok hcreate
    rw [store_recorded, Store.find?_commit_of_ne _ _ _ _ (hne hwrites), ih]
  | update _ hwrites hupdate ih =>
    obtain ⟨-, -, -, -, rfl⟩ := Store.update_eq_ok hupdate
    rw [store_recorded, Store.find?_commit_of_ne _ _ _ _ (hne hwrites), ih]

/-- An object that other writers do not write has no other versions. -/
theorem Drift.of_mem_past {outside : Outside} {h h' : History} (hd : Drift outside h h')
    {ref : ResourceRef} {o : Object k} (hown : ¬ outside.writes k ref) (hat : o.IsAt ref)
    (hmem : (⟨k, o⟩ : Sigma Object) ∈ h'.past) :
  (⟨k, o⟩ : Sigma Object) ∈ h.past
  := by
  induction hd with
  | none => apply hmem
  | tick _ _ _ ih => apply ih hmem
  | create _ hwrites hcreate ih =>
    obtain ⟨-, rfl, -⟩ := Store.create_eq_ok hcreate
    rcases List.mem_cons.mp hmem with hsame | hmem
    · cases hsame
      rw [hat.eq (Object.isAt_placed _ _ _)] at hown
      exact absurd hwrites hown
    · apply ih hmem
  | update _ hwrites hupdate ih =>
    obtain ⟨-, -, -, rfl, -⟩ := Store.update_eq_ok hupdate
    rcases List.mem_cons.mp hmem with hsame | hmem
    · cases hsame
      rw [hat.eq (Object.isAt_placed _ _ _)] at hown
      exact absurd hwrites hown
    · apply ih hmem

theorem Answers.later {outside : Outside} {h h' : History} {r : Request} {answer : r.Answer}
    (ha : h.Answers outside r answer h') :
  h.Later h'
  := by
  cases r with
  | cached k ref => exact ha.1 ▸ Later.refl h
  | get k ref => exact ha.1 ▸ Later.refl h
  | create k ns o =>
    obtain ⟨e, -, rfl⟩ | ⟨stored, s, -, -, rfl⟩ := ha
    · apply Later.refl
    · apply later_committed
  | update k ns o =>
    obtain ⟨e, -, rfl⟩ | ⟨stored, s, -, -, rfl⟩ := ha
    · apply Later.refl
    · apply later_committed
  | clock => exact ha.2 ▸ Later.refl h
  | newKey => exact ha.2 ▸ Later.refl h
  | publish event =>
    obtain rfl := ha
    apply Later.refl

theorem step_later {outside : Outside} {h h'' : History} {r : Request}
    {answer : r.Answer} (hs : step outside h r answer h'') :
  h.Later h''
  := by
  obtain ⟨h', hd, ha⟩ := hs
  apply hd.later.trans ha.later

/-! ### Writes -/

/-- The procedure has written an object at a place, whatever is there. -/
def Wrote (h : History) (ref : ResourceRef) (o : Object k) (h' : History) : Prop :=
  o.name = ref.name ∧ ∃ verb,
    h' = h.committed (h.store.commit verb ref.ns o).2 ref (h.store.stamped ref.ns o)

namespace Wrote

variable {h h' : History} {ref : ResourceRef} {o : Object k}

theorem of_create {s : Store} {ns : String} {stored : Object k}
    (hcreate : h.store.create ns o = (.ok stored, s)) :
  h.Wrote ⟨ns, o.name⟩ o (h.committed s ⟨ns, o.name⟩ stored)
  := by
  obtain ⟨-, rfl, rfl⟩ := Store.create_eq_ok hcreate
  exact ⟨rfl, .create, rfl⟩

theorem of_update {s : Store} {ns : String} {stored : Object k}
    (hupdate : h.store.update ns o = (.ok stored, s)) :
  h.Wrote ⟨ns, o.name⟩ o (h.committed s ⟨ns, o.name⟩ stored)
  := by
  obtain ⟨-, -, -, rfl, rfl⟩ := Store.update_eq_ok hupdate
  exact ⟨rfl, .update, rfl⟩

theorem past (hw : h.Wrote ref o h') :
  h'.past = ⟨k, h.store.stamped ref.ns o⟩ :: h.past
  := by
  obtain ⟨-, verb, rfl⟩ := hw
  rfl

theorem clock (hw : h.Wrote ref o h') :
  h'.clock = h.clock
  := by
  obtain ⟨-, verb, rfl⟩ := hw
  rfl

theorem commits (hw : h.Wrote ref o h') :
  h'.commits = h.commits ++ [⟨k, h.store.find? k ref, h.store.stamped ref.ns o⟩]
  := by
  obtain ⟨-, verb, rfl⟩ := hw
  rfl

theorem later (hw : h.Wrote ref o h') :
  h.Later h'
  := by
  obtain ⟨-, verb, rfl⟩ := hw
  apply later_committed

theorem mem_past (hw : h.Wrote ref o h') :
  (⟨k, h.store.stamped ref.ns o⟩ : Sigma Object) ∈ h'.past
  := by
  rw [hw.past]
  apply List.mem_cons_self

/-- A version is the one that was written, or was there before. -/
theorem of_mem_past (hw : h.Wrote ref o h') {v : Sigma Object} (hmem : v ∈ h'.past) :
  v = ⟨k, h.store.stamped ref.ns o⟩ ∨ v ∈ h.past
  := by
  rw [hw.past] at hmem
  apply List.mem_cons.mp hmem

theorem isAt (hw : h.Wrote ref o h') :
  (h.store.stamped ref.ns o).IsAt ref
  := ⟨rfl, hw.1⟩

theorem find?_self (hw : h.Wrote ref o h') :
  h'.store.find? k ref = some (h.store.stamped ref.ns o)
  := by
  obtain ⟨ns, name⟩ := ref
  obtain ⟨rfl, verb, rfl⟩ := hw
  apply Store.find?_commit_self

theorem find?_of_ne (hw : h.Wrote ref o h') {ref' : ResourceRef} (hne : ¬ (k' = k ∧ ref' = ref)) :
  h'.store.find? k' ref' = h.store.find? k' ref'
  := by
  obtain ⟨ns, name⟩ := ref
  obtain ⟨rfl, verb, rfl⟩ := hw
  apply Store.find?_commit_of_ne
  apply hne

end Wrote

/-! ### Coherent histories -/

/-- In some places, the live objects are where they say and among the versions, a version is
known by its place and its number, and the store will give other numbers to new ones. -/
structure Coherent (places : Kind → ResourceRef → Prop) (h : History) : Prop where
  live : ∀ {k ref} {o : Object k}, places k ref → h.store.find? k ref = some o →
    o.IsAt ref ∧ (⟨k, o⟩ : Sigma Object) ∈ h.past
  unique : ∀ {k ref} {o o' : Object k}, places k ref → o.IsAt ref → o'.IsAt ref →
    (⟨k, o⟩ : Sigma Object) ∈ h.past → (⟨k, o'⟩ : Sigma Object) ∈ h.past →
    o.version = o'.version → o = o'
  given : ∀ {k ref n} {o : Object k}, places k ref → o.IsAt ref →
    (⟨k, o⟩ : Sigma Object) ∈ h.past → o.version = some (Decimal.text n) → n ≤ h.store.counter

/-- The history that begins with a store. -/
def start (s : Store) (now : Instant) : History := ⟨s, now, [], []⟩

/-- A history that begins without the objects in some places is coherent there. -/
theorem coherent_start {places : Kind → ResourceRef → Prop} {s : Store}
    (hnone : ∀ k ref, places k ref → s.find? k ref = none) (now : Instant) :
  (start s now).Coherent places
  := by
  constructor
  · intro k ref o hplace hfind
    have := hnone k ref hplace
    rw [start] at hfind
    rw [this] at hfind
    cases hfind
  · intro k ref o o' _ _ _ hmem
    cases hmem
  · intro k ref n o _ _ hmem
    cases hmem

theorem Coherent.mono {places places' : Kind → ResourceRef → Prop} {h : History} (hc : h.Coherent places)
    (hplaces : ∀ k ref, places' k ref → places k ref) :
  h.Coherent places'
  := ⟨fun hplace => hc.live (hplaces _ _ hplace), fun hplace => hc.unique (hplaces _ _ hplace),
    fun hplace => hc.given (hplaces _ _ hplace)⟩

/-- Every write keeps a history coherent. -/
theorem Coherent.recorded {places : Kind → ResourceRef → Prop} {h : History}
    (hc : h.Coherent places) (verb : WriteVerb) (ns : String) (o : Object k) :
  (h.recorded (h.store.commit verb ns o).2 (h.store.stamped ns o)).Coherent places
  := by
  have hfresh : ∀ {ref} {o' : Object k}, places k ref → o'.IsAt ref →
      (⟨k, o'⟩ : Sigma Object) ∈ h.past → o'.version ≠ (h.store.stamped ns o).version := by
    intro ref o' hplace hat ho' hversion
    have := hc.given hplace hat ho' hversion
    omega
  constructor
  · intro k' ref o' hplace hfind
    by_cases hsame : k' = k ∧ ref = ⟨ns, o.name⟩
    · obtain ⟨rfl, rfl⟩ := hsame
      rw [store_recorded, Store.find?_commit_self] at hfind
      obtain rfl := Option.some.inj hfind
      exact ⟨Object.isAt_placed o ns _, List.mem_cons_self⟩
    · rw [store_recorded, Store.find?_commit_of_ne _ _ _ _ hsame] at hfind
      obtain ⟨hat, hmem⟩ := hc.live hplace hfind
      exact ⟨hat, List.mem_cons_of_mem _ hmem⟩
  · intro k' ref o₁ o₂ hplace hat₁ hat₂ h₁ h₂ hversion
    rcases List.mem_cons.mp h₁ with h₁ | h₁ <;> rcases List.mem_cons.mp h₂ with h₂ | h₂
    · cases h₁
      cases h₂
      rfl
    · cases h₁
      exact absurd hversion.symm (hfresh hplace hat₂ h₂)
    · cases h₂
      exact absurd hversion (hfresh hplace hat₁ h₁)
    · apply hc.unique hplace hat₁ hat₂ h₁ h₂ hversion
  · intro k' ref n o' hplace hat ho' hversion
    rw [store_recorded, Store.counter_commit]
    rcases List.mem_cons.mp ho' with ho' | ho'
    · cases ho'
      have := Decimal.text_injective (Option.some.inj hversion)
      omega
    · have := hc.given hplace hat ho' hversion
      omega

theorem Coherent.committed {places : Kind → ResourceRef → Prop} {h : History}
    (hc : h.Coherent places) (verb : WriteVerb) (ns : String) (o : Object k) (ref : ResourceRef) :
  (h.committed (h.store.commit verb ns o).2 ref (h.store.stamped ns o)).Coherent places
  := by
  have := hc.recorded verb ns o
  exact ⟨this.live, this.unique, this.given⟩

theorem Coherent.wrote {places : Kind → ResourceRef → Prop} {h h' : History} {ref : ResourceRef}
    {o : Object k} (hc : h.Coherent places) (hw : h.Wrote ref o h') :
  h'.Coherent places
  := by
  obtain ⟨-, verb, rfl⟩ := hw
  apply hc.committed

theorem Coherent.drift {places : Kind → ResourceRef → Prop} {outside : Outside} {h h' : History}
    (hc : h.Coherent places) (hd : Drift outside h h') :
  h'.Coherent places
  := by
  induction hd with
  | none => apply hc
  | tick _ _ _ ih => exact ⟨ih.live, ih.unique, ih.given⟩
  | create _ _ hcreate ih =>
    obtain ⟨-, rfl, rfl⟩ := Store.create_eq_ok hcreate
    apply ih.recorded
  | update _ _ hupdate ih =>
    obtain ⟨-, -, -, rfl, rfl⟩ := Store.update_eq_ok hupdate
    apply ih.recorded

/-- Whatever is asked for, a history stays coherent. -/
theorem Coherent.step {places : Kind → ResourceRef → Prop} {outside : Outside} {h h'' : History}
    (hc : h.Coherent places) {r : Request} {answer : r.Answer} (hs : step outside h r answer h'') :
  h''.Coherent places
  := by
  obtain ⟨h', hd, ha⟩ := hs
  have hc' := hc.drift hd
  cases r with
  | cached k ref => exact ha.1 ▸ hc'
  | get k ref => exact ha.1 ▸ hc'
  | create k ns o =>
    obtain ⟨e, -, rfl⟩ | ⟨stored, s, hcreate, -, rfl⟩ := ha
    · apply hc'
    · apply hc'.wrote (.of_create hcreate)
  | update k ns o =>
    obtain ⟨e, -, rfl⟩ | ⟨stored, s, hupdate, -, rfl⟩ := ha
    · apply hc'
    · apply hc'.wrote (.of_update hupdate)
  | clock => exact ha.2 ▸ hc'
  | newKey => exact ha.2 ▸ hc'
  | publish event =>
    obtain rfl := ha
    apply hc'

/-- A copy that can be used for an update is the live object. -/
theorem Coherent.eq_of_version {places : Kind → ResourceRef → Prop} {h : History}
    (hc : h.Coherent places) {ref : ResourceRef} {copy live : Object k} (hplace : places k ref)
    (hat : copy.IsAt ref) (hcopy : (⟨k, copy⟩ : Sigma Object) ∈ h.past)
    (hlive : h.store.find? k ref = some live) (hversion : live.version = copy.version) :
  copy = live
  := by
  obtain ⟨hat', hmem⟩ := hc.live hplace hlive
  apply hc.unique hplace hat hat' hcopy hmem hversion.symm

end History

end CertKeeper
