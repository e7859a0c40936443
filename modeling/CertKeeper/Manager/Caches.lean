import CertKeeper.Error
import CertKeeper.NameSet

/-!
# Caches of the watched namespaces

For each watched namespace there is a cache of its secrets and one of its config maps. A
cache is ready once it has taken over the first listing of its objects. `Caches.await`
waits for the two caches of a namespace, secrets first, and `Caches.watch` does so for
one namespace after the other. `checkWatched` is the look-up of the caches of a
namespace, which fails where a namespace is not watched.
-/

namespace CertKeeper

/-- How far a cache got before the time was up. -/
inductive CacheState where
  | idle
  | listing
  | ready
  | dropped
  deriving DecidableEq

/-- The states of the two caches of a namespace. -/
structure CachePair where
  secrets : CacheState
  configMaps : CacheState
  deriving DecidableEq

namespace Caches

/-- What waiting for one cache comes to. -/
def awaitOne (ns : String) : CacheState → Except CacheFault Unit
  | .ready => .ok ()
  | .dropped => .error (.dropped ns)
  | .idle | .listing => .error (.timedOut ns)

/-- What waiting for the caches of a namespace comes to. -/
def await (cancelled : Bool) (ns : String) (caches : CachePair) : Except CacheFault Unit :=
  if cancelled then
    .error (.cancelled ns)
  else do
    awaitOne ns caches.secrets
    awaitOne ns caches.configMaps

/-- Wait for the caches of each namespace in turn, after those of `watched`. A repeated
namespace is awaited once. -/
def watchFrom (cancelled : Bool) (caches : String → CachePair) (watched : NameSet) :
    List String → Except CacheFault NameSet
  | [] => .ok watched
  | ns :: rest =>
    if watched.contains ns then
      watchFrom cancelled caches watched rest
    else do
      await cancelled ns (caches ns)
      watchFrom cancelled caches (watched.insert ns ()) rest

/-- The namespaces that are watched once all their caches are ready. -/
def watch (cancelled : Bool) (caches : String → CachePair) (namespaces : List String) :
    Except CacheFault NameSet :=
  watchFrom cancelled caches ∅ namespaces

end Caches

/-- The namespace is a watched one. -/
def checkWatched (watched : NameSet) (ns : String) : Except Error Unit :=
  if watched.contains ns then .ok () else .error (.noCache ns)

end CertKeeper
