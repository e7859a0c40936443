import CertKeeper.Cluster.Object
import CertKeeper.Error
import CertKeeper.NameSet
import CertKeeper.Text.Decimal

/-!
# The store

A `Store` keeps the objects of both kinds in memory. Each successful write gives an
object the next version, adds a `Write` to the log and is mirrored into the cache of the
object's namespace, if that is watched. While the caches are held, mirrored objects wait
in a queue, and `Store.flush` delivers them in order. `Store.create` refuses an object
that is there, and `Store.update` one that is not there or has been written since it was
read.
-/

namespace CertKeeper

/-- The verbs of writes. -/
inductive WriteVerb where
  | create
  | update
  deriving DecidableEq

/-- A successful write. -/
structure Write where
  verb : WriteVerb
  kind : Kind
  ref : ResourceRef
  deriving DecidableEq

/-- The objects of a kind: those stored, those in the caches, and those that wait to be
delivered to the caches. -/
structure Shelf (k : Kind) where
  objects : Dict ResourceRef (Object k) := ∅
  cached : Dict ResourceRef (Object k) := ∅
  pending : List (Object k) := []

/-- Objects in memory with their caches. -/
structure Store where
  watched : NameSet
  secrets : Shelf .secret := {}
  configMaps : Shelf .configMap := {}
  writes : List Write := []
  counter : Nat := 0
  held : Bool := false

/-- The name of a kind in messages. -/
def Kind.plural : Kind → String
  | .secret => "secrets"
  | .configMap => "configmaps"

namespace ApiFailure

/-- There is no object of that name. -/
def notFound (k : Kind) (name : String) : Error :=
  .api ⟨404, "NotFound", k.plural ++ " \"" ++ name ++ "\" not found"⟩

/-- There is an object of that name. -/
def alreadyExists (k : Kind) (name : String) : Error :=
  .api ⟨409, "AlreadyExists", k.plural ++ " \"" ++ name ++ "\" already exists"⟩

/-- The object of that name has another version. -/
def conflict (k : Kind) (name : String) : Error :=
  .api ⟨409, "Conflict", "the object has been modified: " ++ k.plural ++ " \"" ++ name ++ "\""⟩

end ApiFailure

namespace Shelf

variable {k : Kind}

/-- The object in the cache of its namespace, if that is watched. -/
def deliver (s : Shelf k) (watched : NameSet) (object : Object k) : Shelf k :=
  let ns := object.metadata.ns.getD ""
  if watched.contains ns then
    { s with cached := s.cached.insert ⟨ns, object.name⟩ object }
  else
    s

/-- The object delivered, or in the queue while the caches are held. -/
def mirror (s : Shelf k) (watched : NameSet) (held : Bool) (object : Object k) : Shelf k :=
  if held then { s with pending := s.pending ++ [object] } else s.deliver watched object

/-- All objects of the queue delivered. -/
def flush (s : Shelf k) (watched : NameSet) : Shelf k :=
  s.pending.foldl (fun s object => s.deliver watched object) { s with pending := [] }

/-- The object stored. -/
def put (s : Shelf k) (ref : ResourceRef) (object : Object k) : Shelf k :=
  { s with objects := s.objects.insert ref object }

end Shelf

namespace Store

variable {k : Kind}

/-- An empty store that watches namespaces. -/
def new (namespaces : List String) : Store := { watched := NameSet.ofNames namespaces }

/-- The objects of a kind. -/
def shelf (s : Store) : (k : Kind) → Shelf k
  | .secret => s.secrets
  | .configMap => s.configMaps

/-- The store with other objects of a kind. -/
def withShelf (s : Store) : {k : Kind} → Shelf k → Store
  | .secret, shelf => { s with secrets := shelf }
  | .configMap, shelf => { s with configMaps := shelf }

/-- The stored object. -/
def find? (s : Store) (k : Kind) (ref : ResourceRef) : Option (Object k) :=
  (s.shelf k).objects.get? ref

/-- The object in the cache. -/
def cached? (s : Store) (k : Kind) (ref : ResourceRef) : Option (Object k) :=
  (s.shelf k).cached.get? ref

/-- The caches stop following the writes. -/
def hold (s : Store) : Store := { s with held := true }

/-- The caches take over what is in the queues and follow the writes again. -/
def flush (s : Store) : Store :=
  { s with
    held := false
    secrets := s.secrets.flush s.watched
    configMaps := s.configMaps.flush s.watched }

/-- A write of an object that nothing speaks against. -/
def commit (s : Store) (verb : WriteVerb) (ns : String) (object : Object k) : Object k × Store :=
  let ref : ResourceRef := ⟨ns, object.name⟩
  let counter := s.counter + 1
  let stored := object.placed ns (Decimal.text counter)
  let shelf := ((s.shelf k).mirror s.watched s.held stored).put ref stored
  (stored, { s.withShelf shelf with
    counter := counter
    writes := s.writes ++ [⟨verb, k, ref⟩] })

/-- The stored object, or an error if there is none. -/
def get (s : Store) (k : Kind) (ref : ResourceRef) : Except Error (Object k) :=
  match s.find? k ref with
  | some object => .ok object
  | none => .error (ApiFailure.notFound k ref.name)

/-- Store a new object. -/
def create (s : Store) (ns : String) (object : Object k) : Except Error (Object k) × Store :=
  match s.find? k ⟨ns, object.name⟩ with
  | some _ => (.error (ApiFailure.alreadyExists k object.name), s)
  | none =>
    let (stored, s) := s.commit .create ns object
    (.ok stored, s)

/-- Store an object in the place of the one with the same version. -/
def update (s : Store) (ns : String) (object : Object k) : Except Error (Object k) × Store :=
  match s.find? k ⟨ns, object.name⟩ with
  | none => (.error (ApiFailure.notFound k object.name), s)
  | some live =>
    if live.version = object.version then
      let (stored, s) := s.commit .update ns object
      (.ok stored, s)
    else
      (.error (ApiFailure.conflict k object.name), s)

/-- Store an object as it is, without a version and a log entry. -/
def tamper (s : Store) (object : Object k) : Store :=
  let ref : ResourceRef := ⟨object.metadata.ns.getD "", object.name⟩
  s.withShelf (((s.shelf k).mirror s.watched s.held object).put ref object)

/-- Store an object in its namespace, whether it is there or not. -/
def overwrite (s : Store) (object : Object k) : Store :=
  let ns := object.metadata.ns.getD ""
  match s.find? k ⟨ns, object.name⟩ with
  | none => (s.create ns object).2
  | some live =>
    (s.update ns { object with metadata := { object.metadata with version := live.version } }).2

end Store

end CertKeeper
