import Mathlib.Data.List.Nodup
import CertKeeper.Proofs.Cluster.Store

/-!
# Coherence of the store

A store is `Mirrored` if its caches have exactly the objects of the watched namespaces once the queues
are delivered, and if the queues are empty while the caches follow the writes. Every operation keeps that
(`Store.Mirrored.act`), an object that is put behind the back of the log too. A `Journal` has besides the
store all versions that writes have stored, in order. The versions are numbered by the counter
(`Journal.Numbered`), so no two have the same. `Journal.coherent` states both of any sequence of
operations on a new store, and when one more write succeeds.
-/

namespace CertKeeper

variable {k k' : Kind}

/-! ### Queues -/

namespace Shelf

variable {s : Shelf k} {watched : NameSet} {held : Bool} {o : Object k} {ref : ResourceRef}

@[simp]
theorem pending_deliver (s : Shelf k) (watched : NameSet) (o : Object k) :
  (s.deliver watched o).pending = s.pending
  := by
  simp only [deliver]
  split <;> rfl

/-- What is stored does not matter to what is delivered. -/
theorem deliver_put (s : Shelf k) (ref : ResourceRef) (stored : Object k) (watched : NameSet) (o : Object k) :
  (s.put ref stored).deliver watched o = (s.deliver watched o).put ref stored
  := by
  simp only [deliver, put]
  split <;> rfl

theorem foldl_deliver_put (s : Shelf k) (ref : ResourceRef) (stored : Object k) (watched : NameSet)
    (queue : List (Object k)) :
  queue.foldl (fun s o => s.deliver watched o) (s.put ref stored)
    = (queue.foldl (fun s o => s.deliver watched o) s).put ref stored
  := by
  induction queue generalizing s with
  | nil => rfl
  | cons o queue ih => rw [List.foldl_cons, deliver_put, ih, List.foldl_cons]

theorem flush_put (s : Shelf k) (ref : ResourceRef) (stored : Object k) (watched : NameSet) :
  (s.put ref stored).flush watched = (s.flush watched).put ref stored
  := foldl_deliver_put { s with pending := [] } ref stored watched s.pending

theorem flush_of_nil (h : s.pending = []) (watched : NameSet) :
  s.flush watched = s
  := by
  obtain ⟨objects, cached, pending⟩ := s
  obtain rfl : pending = [] := h
  rfl

/-- An object that is mirrored is delivered last of all. -/
theorem flush_mirror (hidle : held = false → s.pending = []) (watched : NameSet) (o : Object k) :
  (s.mirror watched held o).flush watched = (s.flush watched).deliver watched o
  := by
  cases held with
  | true =>
    show ((s.pending ++ [o]).foldl (fun s o => s.deliver watched o) { s with pending := [] }) = _
    rw [List.foldl_append]
    rfl
  | false =>
    have hnil := hidle rfl
    have hnil' : (s.deliver watched o).pending = [] := by rw [pending_deliver, hnil]
    show (s.deliver watched o).flush watched = _
    rw [flush_of_nil hnil', flush_of_nil hnil]

/-- What no delivery changes is the same when the queue has been delivered. -/
theorem flush_keeps {β : Type} (part : Shelf k → β) (hdeliver : ∀ s o, part (deliver s watched o) = part s)
    (s : Shelf k) :
  part (s.flush watched) = part { s with pending := [] }
  := by
  have hfold : ∀ (queue : List (Object k)) (s : Shelf k),
      part (queue.foldl (fun s o => s.deliver watched o) s) = part s := by
    intro queue
    induction queue with
    | nil =>
      intro s
      rfl
    | cons o queue ih =>
      intro s
      rw [List.foldl_cons, ih, hdeliver]
  apply hfold

@[simp]
theorem pending_flush (s : Shelf k) (watched : NameSet) :
  (s.flush watched).pending = []
  := flush_keeps pending (fun s o => pending_deliver s watched o) s

@[simp]
theorem objects_flush (s : Shelf k) (watched : NameSet) :
  (s.flush watched).objects = s.objects
  := flush_keeps objects (fun s o => objects_deliver s watched o) s

/-- The caches have exactly the objects of the watched namespaces once the queue is delivered, and the
queue is empty while they follow the writes. -/
structure Mirrored (s : Shelf k) (watched : NameSet) (held : Bool) : Prop where
  delivered : ∀ ref, (s.flush watched).cached.get? ref
    = if watched.contains ref.ns then s.objects.get? ref else none
  idle : held = false → s.pending = []

namespace Mirrored

theorem empty (watched : NameSet) (held : Bool) :
  ({} : Shelf k).Mirrored watched held
  := by
  refine ⟨?_, fun _ => rfl⟩
  intro ref
  split <;> rfl

/-- An object that is mirrored and stored in its place. -/
theorem put (h : s.Mirrored watched held) {ns : String} (hns : o.metadata.ns = some ns) :
  ((s.mirror watched held o).put ⟨ns, o.name⟩ o).Mirrored watched held
  := by
  constructor
  · intro ref
    rw [flush_put, flush_mirror h.idle]
    have hdelivered := h.delivered ref
    simp only [Shelf.put, deliver, hns, Option.getD_some, objects_mirror, Dict.get?_insert]
    by_cases heq : compare ref ⟨ns, o.name⟩ = .eq
    · obtain rfl := Std.LawfulEqCmp.eq_of_compare heq
      rw [if_pos heq]
      split
      · rw [Dict.get?_insert_self]
      · rename_i hunwatched
        rw [hdelivered, if_neg hunwatched]
    · rw [if_neg heq, ← hdelivered]
      split
      · rw [Dict.get?_insert, if_neg heq]
      · rfl
  · intro hheld
    subst hheld
    show (s.deliver watched o).pending = []
    rw [pending_deliver]
    apply h.idle rfl

theorem hold (h : s.Mirrored watched held) :
  s.Mirrored watched true
  := ⟨h.delivered, fun hheld => Bool.noConfusion hheld⟩

theorem flush (h : s.Mirrored watched held) (held' : Bool) :
  (s.flush watched).Mirrored watched held'
  := by
  refine ⟨?_, fun _ => pending_flush s watched⟩
  intro ref
  rw [flush_of_nil (pending_flush s watched), objects_flush]
  apply h.delivered

end Mirrored

end Shelf

/-! ### Operations -/

namespace Store

/-- An operation on a store. The last one puts a secret in its place behind the back of the log. -/
inductive Operation where
  | create {k : Kind} (ns : String) (o : Object k)
  | update {k : Kind} (ns : String) (o : Object k)
  | get (k : Kind) (ref : ResourceRef)
  | hold
  | flush
  | tamper (ns : String) (secret : Secret)

namespace Operation

/-- The operation does not go behind the back of the log. -/
def IsLogged : Operation → Prop
  | tamper .. => False
  | _ => True

/-- The answer to an operation, with the object that it returns, and the store after it. -/
def act (s : Store) : Operation → Except Error (Option (Sigma Object)) × Store
  | @create k ns o => ((s.create ns o).1.map (fun stored => some ⟨k, stored⟩), (s.create ns o).2)
  | @update k ns o => ((s.update ns o).1.map (fun stored => some ⟨k, stored⟩), (s.update ns o).2)
  | get k ref => ((s.get k ref).map (fun object => some ⟨k, object⟩), s)
  | hold => (.ok none, s.hold)
  | flush => (.ok none, s.flush)
  | tamper ns secret =>
    (.ok none, s.tamper { secret with metadata := { secret.metadata with ns := some ns } })

/-- The verb of a write. -/
def verb? : Operation → Option WriteVerb
  | create .. => some .create
  | update .. => some .update
  | _ => none

end Operation

/-- A version of an object that a write has stored. -/
structure Version where
  verb : WriteVerb
  kind : Kind
  object : Object kind

/-- What the log says of a version. -/
def Version.write (v : Version) : Write :=
  ⟨v.verb, v.kind, ⟨v.object.metadata.ns.getD "", v.object.name⟩⟩

/-- The version that an operation stores, if it is a write that succeeds. -/
def Operation.version? (s : Store) (op : Operation) : Option Version :=
  match op.verb?, (op.act s).1 with
  | some verb, .ok (some ⟨k, stored⟩) => some ⟨verb, k, stored⟩
  | _, _ => none

/-- The queues and the caches of both kinds are in order. -/
def Mirrored (s : Store) : Prop := ∀ k, (s.shelf k).Mirrored s.watched s.held

namespace Mirrored

variable {s : Store}

theorem new (namespaces : List String) :
  (new namespaces).Mirrored
  := by
  intro k
  cases k <;> apply Shelf.Mirrored.empty

/-- A store in which one object has been mirrored and stored in its place. -/
theorem put (h : s.Mirrored) {o : Object k} {ns : String} (hns : o.metadata.ns = some ns) {s' : Store}
    (hwatched : s'.watched = s.watched) (hheld : s'.held = s.held)
    (hsame : s'.shelf k = ((s.shelf k).mirror s.watched s.held o).put ⟨ns, o.name⟩ o)
    (hother : ∀ k', k' ≠ k → s'.shelf k' = s.shelf k') :
  s'.Mirrored
  := by
  intro k'
  rw [hwatched, hheld]
  by_cases hk : k' = k
  · subst hk
    rw [hsame]
    apply (h k').put hns
  · rw [hother k' hk]
    apply h k'

theorem commit (h : s.Mirrored) (verb : WriteVerb) (ns : String) (o : Object k) :
  (s.commit verb ns o).2.Mirrored
  := by
  have hns : (s.stamped ns o).metadata.ns = some ns := rfl
  apply h.put hns
  · apply watched_commit
  · apply held_commit
  · apply shelf_commit
  · intro k' hk
    apply shelf_commit_of_ne _ _ _ _ hk

theorem of_moves (h : s.Mirrored) {s' : Store} (hmoves : s.Moves s') :
  s'.Mirrored
  := by
  obtain rfl | ⟨k, verb, ns, o, rfl⟩ := hmoves
  · apply h
  · apply h.commit

/-- Every operation keeps the caches and the queues in order. -/
theorem act (h : s.Mirrored) (op : Operation) :
  (op.act s).2.Mirrored
  := by
  cases op with
  | create ns o => apply h.of_moves (moves_create s ns o)
  | update ns o => apply h.of_moves (moves_update s ns o)
  | get k ref => apply h
  | hold =>
    intro k
    cases k <;> apply (h _).hold
  | flush =>
    intro k
    cases k <;> apply (h _).flush
  | tamper ns secret =>
    obtain ⟨placed, hplaced⟩ : ∃ placed : Secret,
      placed = { secret with metadata := { secret.metadata with ns := some ns } } := ⟨_, rfl⟩
    have hns : placed.metadata.ns = some ns := by rw [hplaced]
    have hact : (Operation.act s (.tamper ns secret)).2 = s.tamper placed := by
      rw [hplaced]
      rfl
    rw [hact]
    apply h.put hns
    · rfl
    · rfl
    · rw [tamper, hns]
      rfl
    · intro k' hk
      cases k' with
      | configMap => rfl
      | secret => exact absurd rfl hk

/-- Once the queues are delivered, the caches have exactly the objects of the watched namespaces. -/
theorem cached?_flush (h : s.Mirrored) (k : Kind) (ref : ResourceRef) :
  s.flush.cached? k ref = if s.watched.contains ref.ns then s.find? k ref else none
  := by
  rw [find?, ← (h k).delivered ref]
  cases k <;> rfl

/-- While they follow the writes, the caches have exactly the objects of the watched namespaces. -/
theorem cached?_eq (h : s.Mirrored) (hheld : s.held = false) (k : Kind) (ref : ResourceRef) :
  s.cached? k ref = if s.watched.contains ref.ns then s.find? k ref else none
  := by
  rw [find?, ← (h k).delivered ref, Shelf.flush_of_nil ((h k).idle hheld)]
  rfl

end Mirrored

/-! ### Versions -/

/-- A store with all versions that writes have stored in it, in order. -/
structure Journal where
  store : Store
  versions : List Version := []

namespace Journal

/-- An operation takes place. -/
def step (j : Journal) (op : Operation) : Journal :=
  ⟨(op.act j.store).2, j.versions ++ (op.version? j.store).toList⟩

/-- A new store after a sequence of operations. -/
def after (namespaces : List String) (ops : List Operation) : Journal :=
  ops.foldl step ⟨new namespaces, []⟩

/-- The versions are numbered by the counter, and the log says what they are. -/
structure Numbered (j : Journal) : Prop where
  counter : j.store.counter = j.versions.length
  writes : j.store.writes = j.versions.map Version.write
  numbers : j.versions.map (fun v => v.object.version)
    = (List.range j.versions.length).map (fun i => some (Decimal.text (i + 1)))

/-- What is stored is one of the versions that writes have stored. -/
def Live (j : Journal) : Prop :=
  ∀ k ref object, j.store.find? k ref = some object →
    object.IsAt ref ∧ ∃ verb, ⟨verb, k, object⟩ ∈ j.versions

end Journal

section

variable {s : Store} {ns : String} {o : Object k}

/-- A creation succeeds where there is nothing. -/
theorem create_of_none (h : s.find? k ⟨ns, o.name⟩ = none) :
  s.create ns o = (.ok (s.stamped ns o), (s.commit .create ns o).2)
  := by
  rw [create, h]
  rfl

theorem create_of_some {live : Object k} (h : s.find? k ⟨ns, o.name⟩ = some live) :
  s.create ns o = (.error (ApiFailure.alreadyExists k o.name), s)
  := by
  rw [create, h]

theorem update_of_none (h : s.find? k ⟨ns, o.name⟩ = none) :
  s.update ns o = (.error (ApiFailure.notFound k o.name), s)
  := by
  rw [update, h]

/-- An update succeeds where the object has the version that is sent. -/
theorem update_of_some {live : Object k} (h : s.find? k ⟨ns, o.name⟩ = some live)
    (hversion : live.version = o.version) :
  s.update ns o = (.ok (s.stamped ns o), (s.commit .update ns o).2)
  := by
  rw [update, h]
  apply if_pos hversion

theorem update_of_ne {live : Object k} (h : s.find? k ⟨ns, o.name⟩ = some live)
    (hversion : live.version ≠ o.version) :
  s.update ns o = (.error (ApiFailure.conflict k o.name), s)
  := by
  rw [update, h]
  apply if_neg hversion

theorem create_succeeds_iff :
  (∃ stored s', s.create ns o = (.ok stored, s')) ↔ s.find? k ⟨ns, o.name⟩ = none
  := by
  constructor
  · rintro ⟨stored, s', h⟩
    exact (create_eq_ok h).1
  · intro h
    exact ⟨_, _, create_of_none h⟩

theorem update_succeeds_iff :
  (∃ stored s', s.update ns o = (.ok stored, s'))
    ↔ ∃ live, s.find? k ⟨ns, o.name⟩ = some live ∧ live.version = o.version
  := by
  constructor
  · rintro ⟨stored, s', h⟩
    obtain ⟨live, hlive, hversion, -⟩ := update_eq_ok h
    exact ⟨live, hlive, hversion⟩
  · rintro ⟨live, hlive, hversion⟩
    exact ⟨_, _, update_of_some hlive hversion⟩

end

namespace Operation

theorem watched_act (s : Store) (op : Operation) :
  (op.act s).2.watched = s.watched
  := by
  have hmoves : ∀ s', s.Moves s' → s'.watched = s.watched := by
    rintro _ (rfl | ⟨k, verb, ns, o, rfl⟩)
    · rfl
    · apply watched_commit
  cases op with
  | create ns o => apply hmoves _ (moves_create s ns o)
  | update ns o => apply hmoves _ (moves_update s ns o)
  | get k ref => rfl
  | hold => rfl
  | flush => rfl
  | tamper ns secret => rfl

/-- What a write comes to: it fails and leaves the store as it is, or a version is stored. -/
theorem act_create (s : Store) (ns : String) (o : Object k) :
  (∃ e, (create ns o).act s = (.error e, s))
    ∨ (create ns o).act s = (.ok (some ⟨k, s.stamped ns o⟩), (s.commit .create ns o).2)
  := by
  cases hfind : s.find? k ⟨ns, o.name⟩ with
  | none =>
    right
    rw [act, create_of_none hfind]
    rfl
  | some live =>
    left
    rw [act, create_of_some hfind]
    exact ⟨_, rfl⟩

theorem act_update (s : Store) (ns : String) (o : Object k) :
  (∃ e, (update ns o).act s = (.error e, s))
    ∨ (update ns o).act s = (.ok (some ⟨k, s.stamped ns o⟩), (s.commit .update ns o).2)
  := by
  cases hfind : s.find? k ⟨ns, o.name⟩ with
  | none =>
    left
    rw [act, update_of_none hfind]
    exact ⟨_, rfl⟩
  | some live =>
    by_cases hversion : live.version = o.version
    · right
      rw [act, update_of_some hfind hversion]
      rfl
    · left
      rw [act, update_of_ne hfind hversion]
      exact ⟨_, rfl⟩

/-- An operation that fails leaves the store as it is. -/
theorem act_eq_error {s s' : Store} {op : Operation} {e : Error} (h : op.act s = (.error e, s')) :
  s' = s
  := by
  cases op with
  | create ns o =>
    obtain ⟨e', hact⟩ | hact := act_create s ns o
    · exact (Prod.mk.inj (h.symm.trans hact)).2
    · cases h.symm.trans hact
  | update ns o =>
    obtain ⟨e', hact⟩ | hact := act_update s ns o
    · exact (Prod.mk.inj (h.symm.trans hact)).2
    · cases h.symm.trans hact
  | get k ref => exact (Prod.mk.inj h).2.symm
  | hold => cases h
  | flush => cases h
  | tamper ns secret => cases h

theorem find?_hold (s : Store) (k : Kind) (ref : ResourceRef) :
  s.hold.find? k ref = s.find? k ref
  := by
  cases k <;> rfl

theorem find?_flush (s : Store) (k : Kind) (ref : ResourceRef) :
  s.flush.find? k ref = s.find? k ref
  := by
  rw [find?, find?]
  cases k <;> (apply congrArg (fun objects => Dict.get? objects ref); apply Shelf.objects_flush)

/-- The operation stores no version, and leaves the log and the counter alone. The objects stay too,
unless it goes behind the back of the log. -/
structure Idle (s : Store) (op : Operation) : Prop where
  version? : op.version? s = none
  counter : (op.act s).2.counter = s.counter
  writes : (op.act s).2.writes = s.writes
  find? : op.IsLogged → ∀ k ref, (op.act s).2.find? k ref = s.find? k ref

theorem idle_of_error {s : Store} {op : Operation} {e : Error} (h : op.act s = (.error e, s)) :
  op.Idle s
  := by
  constructor
  · rw [version?, h]
    cases op.verb? <;> rfl
  · rw [h]
  · rw [h]
  · intro _ k ref
    rw [h]

/-- An operation stores a version, or it is idle. -/
theorem act_cases (s : Store) (op : Operation) :
  (∃ (k : Kind) (verb : WriteVerb) (ns : String) (o : Object k),
    op.version? s = some ⟨verb, k, s.stamped ns o⟩ ∧ (op.act s).2 = (s.commit verb ns o).2)
  ∨ op.Idle s
  := by
  cases op with
  | @create k ns o =>
    obtain ⟨e, hact⟩ | hact := act_create s ns o
    · exact .inr (idle_of_error hact)
    · left
      refine ⟨k, .create, ns, o, ?_, ?_⟩
      · rw [version?, hact]
        rfl
      · rw [hact]
  | @update k ns o =>
    obtain ⟨e, hact⟩ | hact := act_update s ns o
    · exact .inr (idle_of_error hact)
    · left
      refine ⟨k, .update, ns, o, ?_, ?_⟩
      · rw [version?, hact]
        rfl
      · rw [hact]
  | get k ref => exact .inr ⟨rfl, rfl, rfl, fun _ _ _ => rfl⟩
  | hold => exact .inr ⟨rfl, rfl, rfl, fun _ => find?_hold s⟩
  | flush => exact .inr ⟨rfl, rfl, rfl, fun _ => find?_flush s⟩
  | tamper ns secret => exact .inr ⟨rfl, rfl, rfl, False.elim⟩

end Operation

namespace Journal

variable {j : Journal} {op : Operation}

/-- Every operation keeps the numbers of the versions. -/
theorem Numbered.step (h : j.Numbered) (op : Operation) :
  (j.step op).Numbered
  := by
  obtain ⟨k, verb, ns, o, hversion, hact⟩ | hidle := op.act_cases j.store
  · have hversions : (j.step op).versions = j.versions ++ [⟨verb, k, j.store.stamped ns o⟩] := by
      rw [Journal.step, hversion]
      rfl
    have hstore : (j.step op).store = (j.store.commit verb ns o).2 := hact
    constructor
    · rw [hstore, hversions, counter_commit, List.length_append, h.counter]
      rfl
    · rw [hstore, hversions, List.map_append, ← h.writes]
      rfl
    · rw [hversions, List.length_append, List.map_append, h.numbers, List.length_singleton,
        List.range_succ, List.map_append, ← h.counter]
      rfl
  · have hversions : (j.step op).versions = j.versions := by
      rw [Journal.step, hidle.version?]
      apply List.append_nil
    constructor
    · rw [hversions, ← h.counter]
      apply hidle.counter
    · rw [hversions, ← h.writes]
      apply hidle.writes
    · rw [hversions, h.numbers]

/-- An operation that does not go behind the back of the log stores nothing but versions. -/
theorem Live.step (h : j.Live) (hlogged : op.IsLogged) :
  (j.step op).Live
  := by
  intro k' ref object hfind
  have hold : j.store.find? k' ref = some object →
      object.IsAt ref ∧ ∃ verb, ⟨verb, k', object⟩ ∈ (j.step op).versions := by
    intro hfind
    obtain ⟨hat, verb, hmem⟩ := h k' ref object hfind
    exact ⟨hat, verb, List.mem_append_left _ hmem⟩
  obtain ⟨k, verb, ns, o, hversion, hact⟩ | hidle := op.act_cases j.store
  · have hfind' : (j.store.commit verb ns o).2.find? k' ref = some object := hact ▸ hfind
    by_cases hsame : k' = k ∧ ref = ⟨ns, o.name⟩
    · obtain ⟨rfl, rfl⟩ := hsame
      rw [find?_commit_self] at hfind'
      obtain rfl := Option.some.inj hfind'
      refine ⟨o.isAt_placed ns _, verb, ?_⟩
      rw [Journal.step, hversion]
      apply List.mem_append_right
      apply List.mem_singleton_self
    · rw [find?_commit_of_ne _ _ _ _ hsame] at hfind'
      apply hold hfind'
  · apply hold
    rw [← hidle.find? hlogged]
    apply hfind

/-! ### Sequences of operations -/

/-- What every operation of a sequence keeps holds at its end. -/
theorem foldl_keeps {p : Journal → Prop} {ops : List Operation}
    (hstep : ∀ op ∈ ops, ∀ j, p j → p (j.step op)) (hstart : p j) :
  p (ops.foldl Journal.step j)
  := by
  induction ops generalizing j with
  | nil => apply hstart
  | cons op ops ih =>
    apply ih
    · intro op' hmem
      apply hstep op' (List.mem_cons_of_mem _ hmem)
    · apply hstep op List.mem_cons_self j hstart

theorem mirrored_after (namespaces : List String) (ops : List Operation) :
  (after namespaces ops).store.Mirrored
    ∧ (after namespaces ops).store.watched = NameSet.ofNames namespaces
  := by
  apply foldl_keeps (p := fun j => j.store.Mirrored ∧ j.store.watched = NameSet.ofNames namespaces)
  · rintro op - j ⟨hmirrored, hwatched⟩
    exact ⟨hmirrored.act op, (op.watched_act j.store).trans hwatched⟩
  · exact ⟨Mirrored.new namespaces, rfl⟩

theorem numbered_after (namespaces : List String) (ops : List Operation) :
  (after namespaces ops).Numbered
  := by
  apply foldl_keeps
  · intro op _ j h
    apply h.step
  · exact ⟨rfl, rfl, rfl⟩

theorem live_after (namespaces : List String) {ops : List Operation} (hlogged : ∀ op ∈ ops, op.IsLogged) :
  (after namespaces ops).Live
  := by
  apply foldl_keeps
  · intro op hmem j h
    apply h.step (hlogged op hmem)
  · intro k ref object hfind
    rw [find?_new] at hfind
    cases hfind

theorem Numbered.version_eq (h : j.Numbered) {i : Nat} {v : Version} (hv : j.versions[i]? = some v) :
  v.object.version = some (Decimal.text (i + 1))
  := by
  have hnumber := congrArg (fun numbers => numbers[i]?) h.numbers
  have hlt : i < j.versions.length := (List.getElem?_eq_some_iff.mp hv).1
  simp only [List.getElem?_map, hv, List.getElem?_range hlt, Option.map_some, Option.some_inj] at hnumber
  apply hnumber

theorem Numbered.nodup (h : j.Numbered) :
  (j.versions.map (fun v => v.object.version)).Nodup
  := by
  rw [h.numbers]
  apply List.Nodup.map _ List.nodup_range
  intro m n heq
  have := Decimal.text_injective (Option.some.inj heq)
  omega

/-- After any sequence of operations on a new store, the caches have exactly the objects of the watched
namespaces once the queues are delivered, and at once while they follow the writes. The counter is the
number of successful writes, the log lists them, and each has stored a version with the next number, so
that no two versions are the same. If nothing went behind the back of the log, what is stored is such a
version. A creation succeeds exactly where there is nothing, an update exactly where the object has the
version that is sent, and an operation that fails leaves the store as it is. -/
theorem coherent (namespaces : List String) (ops : List Operation) :
  (∀ k ref, (after namespaces ops).store.flush.cached? k ref
    = if ref.ns ∈ namespaces then (after namespaces ops).store.find? k ref else none)
  ∧ ((after namespaces ops).store.held = false →
    ∀ k ref, (after namespaces ops).store.cached? k ref
      = if ref.ns ∈ namespaces then (after namespaces ops).store.find? k ref else none)
  ∧ (after namespaces ops).store.counter = (after namespaces ops).versions.length
  ∧ (after namespaces ops).store.writes = (after namespaces ops).versions.map Version.write
  ∧ (∀ (i : Nat) v, (after namespaces ops).versions[i]? = some v →
    v.object.version = some (Decimal.text (i + 1)))
  ∧ ((after namespaces ops).versions.map (fun v => v.object.version)).Nodup
  ∧ ((∀ op ∈ ops, op.IsLogged) → (after namespaces ops).Live)
  ∧ (∀ (k : Kind) ns (o : Object k),
    ((∃ stored s', (after namespaces ops).store.create ns o = (.ok stored, s'))
      ↔ (after namespaces ops).store.find? k ⟨ns, o.name⟩ = none)
    ∧ ((∃ stored s', (after namespaces ops).store.update ns o = (.ok stored, s'))
      ↔ ∃ live, (after namespaces ops).store.find? k ⟨ns, o.name⟩ = some live
        ∧ live.version = o.version))
  ∧ ∀ op e s', Operation.act (after namespaces ops).store op = (.error e, s') →
    s' = (after namespaces ops).store
  := by
  obtain ⟨hmirrored, hwatched⟩ := mirrored_after namespaces ops
  have hnumbered := numbered_after namespaces ops
  have hiff : ∀ ns, (after namespaces ops).store.watched.contains ns ↔ ns ∈ namespaces := by
    intro ns
    rw [hwatched, NameSet.contains_ofNames]
  refine ⟨?_, ?_, hnumbered.counter, hnumbered.writes, ?_, hnumbered.nodup, live_after namespaces, ?_, ?_⟩
  · intro k ref
    rw [hmirrored.cached?_flush]
    simp only [hiff]
  · intro hheld k ref
    rw [hmirrored.cached?_eq hheld]
    simp only [hiff]
  · intro i v hv
    apply hnumbered.version_eq hv
  · intro k ns o
    exact ⟨create_succeeds_iff, update_succeeds_iff⟩
  · intro op e s' h
    apply Operation.act_eq_error h

end Journal

end Store

end CertKeeper
