import CertKeeper.Certificate.Authority
import CertKeeper.Cluster.Object
import CertKeeper.Program

/-!
# Requests

A `Request` is what a procedure asks of its surroundings: an object as a cache has it, a
call on the store, the time, a new key pair, or the publication of an `Event`. A
`Procedure` is a program over requests that may stop early. The calls on the store answer
with an object or with an error, and a procedure decides what becomes of the error.
-/

namespace CertKeeper

/-- A report of a change of an object. -/
structure Event where
  kind : Kind
  ns : Option String
  name : String
  reason : String
  action : String
  note : String
  deriving DecidableEq

/-- What a procedure asks of its surroundings. -/
inductive Request where
  | cached (k : Kind) (ref : ResourceRef)
  | get (k : Kind) (ref : ResourceRef)
  | create (k : Kind) (ns : String) (object : Object k)
  | update (k : Kind) (ns : String) (object : Object k)
  | clock
  | newKey
  | publish (event : Event)

/-- The answer to a request. -/
@[reducible]
def Request.Answer : Request → Type
  | cached k _ => Option (Object k)
  | get k _ => Except Error (Object k)
  | create k _ _ => Except Error (Object k)
  | update k _ _ => Except Error (Object k)
  | clock => Instant
  | newKey => KeyPair
  | publish _ => Unit

/-- A program over requests that may stop early. -/
abbrev Procedure (α : Type) := ExceptT Stop (Program Request.Answer) α

namespace Procedure

variable {α : Type}

/-- Make one request. -/
def ask (r : Request) : Procedure r.Answer := ExceptT.lift (Program.perform r)

/-- Stop with an error. -/
def fail (e : Error) : Procedure α := throw (.error e)

/-- Stop with the error of a result. -/
def ofResult : Except Error α → Procedure α
  | .ok a => pure a
  | .error e => fail e

/-- Stop where a computation stops. -/
def ofComputation : Except Stop α → Procedure α
  | .ok a => pure a
  | .error stop => throw stop

/-- The object as the cache has it. -/
def cached (k : Kind) (ref : ResourceRef) : Procedure (Option (Object k)) := ask (.cached k ref)

/-- The object as the store has it. -/
def get (k : Kind) (ref : ResourceRef) : Procedure (Object k) := do
  ofResult (← ask (.get k ref))

/-- The object as the store has it, or nothing if the store has none. -/
def find (k : Kind) (ref : ResourceRef) : Procedure (Option (Object k)) := do
  match ← ask (.get k ref) with
  | .ok object => return some object
  | .error e => if e.isNotFound then return none else fail e

/-- Create an object. -/
def create (k : Kind) (ns : String) (object : Object k) : Procedure (Object k) := do
  ofResult (← ask (.create k ns object))

/-- Update an object. -/
def update (k : Kind) (ns : String) (object : Object k) : Procedure (Object k) := do
  ofResult (← ask (.update k ns object))

/-- The time. -/
def clock : Procedure Instant := ask .clock

/-- A new key pair. -/
def newKey : Procedure KeyPair := ask .newKey

/-- Report a change of an object. -/
def publish {k : Kind} (object : Object k) (reason action note : String) : Procedure Unit :=
  ask (.publish ⟨k, object.metadata.ns, object.name, reason, action, note⟩)

/-- The freshest copy of an object that is known: the one handed in, or the one of the
cache, or the one of the store. -/
def current (k : Kind) (known : Option (Object k)) (ref : ResourceRef) :
    Procedure (Option (Object k)) := do
  match known with
  | some object => return some object
  | none =>
    match ← cached k ref with
    | some object => return some object
    | none => find k ref

/-- Update a secret that the store has given a version, and create one that it has not.
If another writer creates it first, the secret replaces what that writer stored. -/
def store (ns : String) (secret : Secret) : Procedure Secret := do
  match secret.version with
  | some _ => update .secret ns secret
  | none =>
    match ← ask (.create .secret ns secret) with
    | .ok stored => return stored
    | .error e =>
      if e.isAlreadyExists then
        let live ← get .secret ⟨ns, secret.name⟩
        update .secret ns { secret with metadata := { secret.metadata with version := live.version } }
      else
        fail e

end Procedure

end CertKeeper
