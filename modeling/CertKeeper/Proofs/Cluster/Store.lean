import CertKeeper.Cluster.Store
import CertKeeper.Proofs.Text.Decimal

/-!
# Laws of the store

What one write does: it puts the object it stores in one place and leaves the other places
alone (`Store.find?_commit_self`, `Store.find?_commit_of_ne`), and the version it gives has
not been given before. A creation succeeds where there is nothing, and an update where the
live object has the version that was sent.
-/

namespace CertKeeper

namespace Object

variable {k : Kind}

/-- The object says that it is at a place. -/
def IsAt (o : Object k) (ref : ResourceRef) : Prop :=
  o.metadata.ns = some ref.ns ∧ o.name = ref.name

theorem IsAt.eq {o : Object k} {ref ref' : ResourceRef} (h : o.IsAt ref) (h' : o.IsAt ref') :
  ref = ref'
  := by
  obtain ⟨ns, name⟩ := ref
  obtain ⟨ns', name'⟩ := ref'
  obtain rfl : ns = ns' := Option.some.inj (h.1.symm.trans h'.1)
  obtain rfl : name = name' := h.2.symm.trans h'.2
  rfl

theorem isAt_placed (o : Object k) (ns version : String) :
  (o.placed ns version).IsAt ⟨ns, o.name⟩
  := ⟨rfl, rfl⟩

@[simp]
theorem version_placed (o : Object k) (ns version : String) :
  (o.placed ns version).version = some version
  := rfl

end Object

namespace Shelf

variable {k : Kind}

@[simp]
theorem objects_deliver (s : Shelf k) (watched : NameSet) (o : Object k) :
  (s.deliver watched o).objects = s.objects
  := by
  simp only [deliver]
  split <;> rfl

@[simp]
theorem objects_mirror (s : Shelf k) (watched : NameSet) (held : Bool) (o : Object k) :
  (s.mirror watched held o).objects = s.objects
  := by
  simp only [mirror]
  split
  · rfl
  · apply objects_deliver

end Shelf

namespace Store

variable {k k' : Kind}

@[simp]
theorem shelf_withShelf (s : Store) (shelf : Shelf k) :
  (s.withShelf shelf).shelf k = shelf
  := by
  cases k <;> rfl

@[simp]
theorem watched_withShelf (s : Store) (shelf : Shelf k) :
  (s.withShelf shelf).watched = s.watched
  := by
  cases k <;> rfl

@[simp]
theorem held_withShelf (s : Store) (shelf : Shelf k) :
  (s.withShelf shelf).held = s.held
  := by
  cases k <;> rfl

/-- The object that a write stores. -/
def stamped (s : Store) (ns : String) (o : Object k) : Object k :=
  o.placed ns (Decimal.text (s.counter + 1))

/-- An empty store has no objects. -/
@[simp]
theorem find?_new (namespaces : List String) (k : Kind) (ref : ResourceRef) :
  (new namespaces).find? k ref = none
  := by
  cases k <;> rfl

@[simp]
theorem commit_fst (s : Store) (verb : WriteVerb) (ns : String) (o : Object k) :
  (s.commit verb ns o).1 = s.stamped ns o
  := rfl

@[simp]
theorem counter_commit (s : Store) (verb : WriteVerb) (ns : String) (o : Object k) :
  (s.commit verb ns o).2.counter = s.counter + 1
  := rfl

@[simp]
theorem watched_commit (s : Store) (verb : WriteVerb) (ns : String) (o : Object k) :
  (s.commit verb ns o).2.watched = s.watched
  := watched_withShelf s _

@[simp]
theorem held_commit (s : Store) (verb : WriteVerb) (ns : String) (o : Object k) :
  (s.commit verb ns o).2.held = s.held
  := held_withShelf s _

theorem shelf_commit (s : Store) (verb : WriteVerb) (ns : String) (o : Object k) :
  (s.commit verb ns o).2.shelf k
    = ((s.shelf k).mirror s.watched s.held (s.stamped ns o)).put ⟨ns, o.name⟩ (s.stamped ns o)
  := by
  cases k <;> rfl

theorem shelf_commit_of_ne (s : Store) (verb : WriteVerb) (ns : String) (o : Object k)
    (h : k' ≠ k) :
  (s.commit verb ns o).2.shelf k' = s.shelf k'
  := by
  cases k <;> cases k' <;> first | rfl | exact absurd rfl h

/-- A write puts the object it stores in its place. -/
@[simp]
theorem find?_commit_self (s : Store) (verb : WriteVerb) (ns : String) (o : Object k) :
  (s.commit verb ns o).2.find? k ⟨ns, o.name⟩ = some (s.stamped ns o)
  := by
  simp [find?, shelf_commit, Shelf.put]

/-- A write leaves all other places alone. -/
theorem find?_commit_of_ne (s : Store) (verb : WriteVerb) (ns : String) (o : Object k)
    {ref : ResourceRef} (h : ¬ (k' = k ∧ ref = ⟨ns, o.name⟩)) :
  (s.commit verb ns o).2.find? k' ref = s.find? k' ref
  := by
  by_cases hk : k' = k
  · subst hk
    have href : ref ≠ ⟨ns, o.name⟩ := fun href => h ⟨rfl, href⟩
    rw [find?, shelf_commit, Shelf.put]
    simp only [Shelf.objects_mirror]
    apply Dict.get?_insert_of_ne
    apply href
  · rw [find?, shelf_commit_of_ne s verb ns o hk, find?]

/-- What a successful creation comes to. -/
theorem create_eq_ok {s s' : Store} {ns : String} {o stored : Object k}
    (h : s.create ns o = (.ok stored, s')) :
  s.find? k ⟨ns, o.name⟩ = none ∧ stored = s.stamped ns o ∧ s' = (s.commit .create ns o).2
  := by
  unfold create at h
  split at h
  · cases h
  · rename_i hnone
    cases h
    exact ⟨hnone, rfl, rfl⟩

/-- What a successful update comes to. -/
theorem update_eq_ok {s s' : Store} {ns : String} {o stored : Object k}
    (h : s.update ns o = (.ok stored, s')) :
  ∃ live, s.find? k ⟨ns, o.name⟩ = some live ∧ live.version = o.version
    ∧ stored = s.stamped ns o ∧ s' = (s.commit .update ns o).2
  := by
  unfold update at h
  split at h
  · cases h
  · rename_i live hlive
    split at h
    · rename_i hversion
      cases h
      exact ⟨live, hlive, hversion, rfl, rfl⟩
    · cases h

/-- A write that fails leaves the store alone. -/
theorem create_eq_error {s s' : Store} {ns : String} {o : Object k} {e : Error}
    (h : s.create ns o = (.error e, s')) :
  s' = s
  := by
  unfold create at h
  split at h
  · exact (Prod.mk.inj h).2.symm
  · cases h

theorem update_eq_error {s s' : Store} {ns : String} {o : Object k} {e : Error}
    (h : s.update ns o = (.error e, s')) :
  s' = s
  := by
  unfold update at h
  split at h
  · exact (Prod.mk.inj h).2.symm
  · split at h
    · cases h
    · exact (Prod.mk.inj h).2.symm

/-- While the caches follow the writes, a watched one takes over what is written. -/
theorem cached?_commit_self (s : Store) (verb : WriteVerb) (ns : String) (o : Object k)
    (hheld : s.held = false) (hwatched : s.watched.contains ns) :
  (s.commit verb ns o).2.cached? k ⟨ns, o.name⟩ = some (s.stamped ns o)
  := by
  rw [cached?, shelf_commit, hheld]
  simp only [Shelf.put, Shelf.mirror, Shelf.deliver, Bool.false_eq_true, if_false]
  rw [if_pos (show s.watched.contains ((s.stamped ns o).metadata.ns.getD "") = true from hwatched)]
  apply Dict.get?_insert_self

/-- A write leaves what caches have of other objects alone. -/
theorem cached?_commit_of_ne (s : Store) (verb : WriteVerb) (ns : String) (o : Object k)
    (hheld : s.held = false) {ref : ResourceRef} (h : ¬ (k' = k ∧ ref = ⟨ns, o.name⟩)) :
  (s.commit verb ns o).2.cached? k' ref = s.cached? k' ref
  := by
  by_cases hk : k' = k
  · subst hk
    have href : ref ≠ ⟨ns, o.name⟩ := fun href => h ⟨rfl, href⟩
    rw [cached?, shelf_commit, hheld]
    simp only [Shelf.put, Shelf.mirror, Shelf.deliver, Bool.false_eq_true, if_false]
    split
    · apply Dict.get?_insert_of_ne
      apply href
    · rfl
  · rw [cached?, shelf_commit_of_ne s verb ns o hk, cached?]

/-- While the caches are held, a write leaves them alone. -/
theorem cached?_commit_of_held (s : Store) (verb : WriteVerb) (ns : String) (o : Object k)
    (hheld : s.held = true) (ref : ResourceRef) :
  (s.commit verb ns o).2.cached? k' ref = s.cached? k' ref
  := by
  by_cases hk : k' = k
  · subst hk
    rw [cached?, shelf_commit, hheld]
    rfl
  · rw [cached?, shelf_commit_of_ne s verb ns o hk, cached?]

/-- A store is left as it is, or one write takes place. -/
def Moves (s s' : Store) : Prop :=
  s' = s ∨ ∃ (k : Kind) (verb : WriteVerb) (ns : String) (o : Object k), s' = (s.commit verb ns o).2

theorem moves_create (s : Store) (ns : String) (o : Object k) :
  s.Moves (s.create ns o).2
  := by
  unfold create
  split
  · exact .inl rfl
  · exact .inr ⟨k, .create, ns, o, rfl⟩

theorem moves_update (s : Store) (ns : String) (o : Object k) :
  s.Moves (s.update ns o).2
  := by
  unfold update
  split
  · exact .inl rfl
  · split
    · exact .inr ⟨k, .update, ns, o, rfl⟩
    · exact .inl rfl

/-! ### Stores that differ in their caches -/

/-- Two stores have the same objects and the same log, and the same version to give next. -/
structure Level (s t : Store) : Prop where
  find? : ∀ k ref, t.find? k ref = s.find? k ref
  writes : t.writes = s.writes
  counter : t.counter = s.counter

namespace Level

variable {s t : Store} {ns : String} {o : Object k}

theorem get (h : s.Level t) (k : Kind) (ref : ResourceRef) :
  t.get k ref = s.get k ref
  := by
  rw [Store.get, Store.get, h.find?]

theorem stamped (h : s.Level t) (ns : String) (o : Object k) :
  t.stamped ns o = s.stamped ns o
  := by
  rw [Store.stamped, Store.stamped, h.counter]

theorem commit (h : s.Level t) (verb : WriteVerb) (ns : String) (o : Object k) :
  (s.commit verb ns o).2.Level (t.commit verb ns o).2
  := by
  constructor
  · intro k' ref
    by_cases hsame : k' = k ∧ ref = ⟨ns, o.name⟩
    · obtain ⟨rfl, rfl⟩ := hsame
      rw [find?_commit_self, find?_commit_self, h.stamped]
    · rw [find?_commit_of_ne _ _ _ _ hsame, find?_commit_of_ne _ _ _ _ hsame, h.find?]
  · show t.writes ++ _ = s.writes ++ _
    rw [h.writes]
  · rw [counter_commit, counter_commit, h.counter]

/-- Level stores answer alike, and stay level. -/
theorem create (h : s.Level t) (ns : String) (o : Object k) :
  (t.create ns o).1 = (s.create ns o).1 ∧ (s.create ns o).2.Level (t.create ns o).2
  := by
  rw [Store.create, Store.create, h.find?]
  cases s.find? k ⟨ns, o.name⟩ with
  | some live => exact ⟨rfl, h⟩
  | none => exact ⟨congrArg Except.ok (h.stamped ns o), h.commit .create ns o⟩

theorem update (h : s.Level t) (ns : String) (o : Object k) :
  (t.update ns o).1 = (s.update ns o).1 ∧ (s.update ns o).2.Level (t.update ns o).2
  := by
  rw [Store.update, Store.update, h.find?]
  cases s.find? k ⟨ns, o.name⟩ with
  | none => exact ⟨rfl, h⟩
  | some live =>
    by_cases hversion : live.version = o.version
    · dsimp only
      rw [if_pos hversion, if_pos hversion]
      exact ⟨congrArg Except.ok (h.stamped ns o), h.commit .update ns o⟩
    · dsimp only
      rw [if_neg hversion, if_neg hversion]
      exact ⟨rfl, h⟩

end Level

end Store

end CertKeeper
