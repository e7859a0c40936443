import CertKeeper.Cluster.Fault
import CertKeeper.Cluster.Request
import CertKeeper.Manager.Caches

/-!
# A cluster at work

A `World` is a store with everything else that a procedure meets: a clock that stands
still until it is set, a supply of new key pairs, planned faults, and records of the
calls, of the requests to a server and of the events. `World.handle` carries one request
out, so `World.run` carries a procedure out.

The store may stand behind a server. A manager then has caches of its own, which are
filled once when it starts, and `World.start` starts one.
-/

namespace CertKeeper

/-- The objects that caches had when they were filled. -/
structure Snapshot where
  watched : NameSet
  secrets : Dict ResourceRef Secret
  configMaps : Dict ResourceRef ConfigMap

/-- A call on the store: the version sent along with a write, and the version or the
error that came back. -/
structure Call where
  verb : CallVerb
  kind : Kind
  ref : ResourceRef
  sent : Option String
  outcome : Except Error (Option String)

/-- A cluster at work. -/
structure World where
  store : Store
  clock : Instant
  keys : Nat := 0
  faults : List Fault := []
  calls : List Call := []
  events : List Event := []
  silent : Bool := false
  behindServer : Bool := false
  snapshot : Option Snapshot := none

namespace World

/-- The namespaces whose caches a manager has. -/
def watched (w : World) : NameSet :=
  match w.snapshot with
  | some snapshot => snapshot.watched
  | none => w.store.watched

/-- The object as the cache of a manager has it. -/
def cached? (w : World) (k : Kind) (ref : ResourceRef) : Option (Object k) :=
  match w.snapshot with
  | none => w.store.cached? k ref
  | some snapshot =>
    match k with
    | .secret => snapshot.secrets.get? ref
    | .configMap => snapshot.configMaps.get? ref

/-- The number of objects of a kind in the cache of a namespace. -/
def cachedCount (w : World) (k : Kind) (ns : String) : Nat :=
  let refs := match w.snapshot, k with
    | none, k => (w.store.shelf k).cached.keys
    | some snapshot, .secret => snapshot.secrets.keys
    | some snapshot, .configMap => snapshot.configMaps.keys
  (refs.filter (fun ref => ref.ns = ns)).length

/-- Another writer stores an object. -/
def overwrite (w : World) : Sigma Object → World
  | ⟨_, object⟩ => { w with store := w.store.overwrite object }

/-- A call on the store, unless a fault strikes it. -/
def call {k : Kind} (w : World) (verb : CallVerb) (ref : ResourceRef) (sent : Option String)
    (action : Store → Except Error (Object k) × Store) : Except Error (Object k) × World :=
  let (fault, faults) := Fault.strike (.call verb k) ref.name w.faults
  let w := { w with faults := faults }
  let w := match fault.bind Fault.object with
    | some object => w.overwrite object
    | none => w
  let answer : Except Error (Object k) × Store := match fault.bind Fault.error with
    | some e => (.error e, w.store)
    | none => action w.store
  (answer.1, { w with
    store := answer.2
    calls := w.calls ++ [⟨verb, k, ref, sent, answer.1.map Object.version⟩] })

/-- Carry a request out. -/
def handle : (r : Request) → World → r.Answer × World
  | .cached k ref, w => (w.cached? k ref, w)
  | .get k ref, w => w.call .get ref none (fun s => (s.get k ref, s))
  | .create _ ns object, w =>
    w.call .create ⟨ns, object.name⟩ object.version (fun s => s.create ns object)
  | .update _ ns object, w =>
    w.call .update ⟨ns, object.name⟩ object.version (fun s => s.update ns object)
  | .clock, w => (w.clock, w)
  | .newKey, w => (KeyPair.generate w.keys, { w with keys := w.keys + 1 })
  | .publish event, w =>
    let (_, faults) := Fault.strike .event event.name w.faults
    ((), if w.silent then w else { w with faults := faults, events := w.events ++ [event] })

/-- Carry a procedure out. -/
def run {α : Type} (p : Procedure α) (w : World) : Except Stop α × World :=
  Program.run handle p.run w

/-- The objects of a store in some namespaces. -/
def snapshotOf (s : Store) (watched : NameSet) : Snapshot :=
  let within (k : Kind) (d : Dict ResourceRef (Object k)) : Dict ResourceRef (Object k) :=
    d.filter (fun ref _ => watched.contains ref.ns)
  ⟨watched, within .secret s.secrets.objects, within .configMap s.configMaps.objects⟩

/-- Start a manager whose caches are filled from the store, which refuses to list some
namespaces. If the caches do not become ready, the manager before stays in use. -/
def start (w : World) (denied : List String) (cancelled : Bool) (namespaces : List String) :
    Except Error NameSet × World :=
  let caches (ns : String) : CachePair :=
    if denied.contains ns then ⟨.idle, .idle⟩ else ⟨.ready, .ready⟩
  match Caches.watch cancelled caches namespaces with
  | .error fault => (.error (.cacheSync fault), w)
  | .ok watched => (.ok watched, { w with snapshot := some (snapshotOf w.store watched) })

end World

end CertKeeper
